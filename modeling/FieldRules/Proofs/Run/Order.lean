import FieldRules.Run.Check
import FieldRules.Proofs.Config.Trees

/-!
# Checks in order

`Plan.outcomes` lists the outcomes of all checks of a plan for a value, each taken by itself, in the
order in which they are made. What a plan makes of the value (`Plan.check`) is these outcomes up to
the first failure (`Plan.check_eq_inOrder`), and so it fails as the first failing one of them
(`Outcome.failure_inOrder`).
-/

namespace FieldRules

namespace Outcome

/-- Outcomes one after the other, up to the first failure. -/
def inOrder (os : List Outcome) : Outcome := forEach id os

theorem inOrder_cons (o : Outcome) (os : List Outcome) :
    inOrder (o :: os) = o.andThen (inOrder os) :=
  forEach_cons id o os

theorem inOrder_singleton (o : Outcome) : inOrder [o] = o := by
  rw [inOrder_cons]
  exact andThen_pass o

theorem inOrder_append (os ps : List Outcome) :
    inOrder (os ++ ps) = (inOrder os).andThen (inOrder ps) := by
  induction os with
  | nil => rw [List.nil_append]; exact (pass_andThen _).symm
  | cons o os ih => rw [List.cons_append, inOrder_cons, ih, inOrder_cons, andThen_assoc]

theorem forEach_congr {α : Type} {run run' : α → Outcome} {as : List α}
    (h : ∀ a ∈ as, run a = run' a) : forEach run as = forEach run' as := by
  induction as with
  | nil => rfl
  | cons a as ih =>
    have hrest := ih fun b hb => h b (List.mem_cons_of_mem a hb)
    rw [forEach_cons, forEach_cons, h a List.mem_cons_self, hrest]

theorem forEach_pass {α : Type} (as : List α) : forEach (fun _ => pass) as = pass := by
  induction as with
  | nil => rfl
  | cons a as ih => rw [forEach_cons, ih, pass_andThen]

theorem forEach_eq_inOrder {α : Type} (run : α → Outcome) (as : List α) :
    forEach run as = inOrder (as.map run) := by
  induction as with
  | nil => rfl
  | cons a as ih => rw [forEach_cons, ih, List.map_cons, inOrder_cons]

theorem inOrder_flatMap {α : Type} (f : α → List Outcome) (as : List α) :
    inOrder (as.flatMap f) = forEach (fun a => inOrder (f a)) as := by
  induction as with
  | nil => rfl
  | cons a as ih => rw [List.flatMap_cons, inOrder_append, ih, forEach_cons]

/-- Outcomes in order fail as the first failing one. -/
theorem failure_inOrder (os : List Outcome) :
    (inOrder os).failure = os.findSome? Outcome.failure := by
  induction os with
  | nil => rfl
  | cons o os ih =>
    rw [inOrder_cons, List.findSome?_cons, ← ih]
    cases h : o.failure with
    | none => simp only [andThen, h]
    | some f => simp only [andThen, h]

end Outcome

/-! ## The single checks -/

/-- The outcomes of the checks of two limits. -/
def Limits.outcomes {α : Type} (limits : Limits (Bound α)) (exceeds : Side → α → Bool)
    (lower upper : Bound α → Violation) (path : String) : List Outcome :=
  (limits.lower.toList.map fun b => .failIf (exceeds .below b.value) ⟨path, lower b⟩) ++
    limits.upper.toList.map fun b => .failIf (exceeds .above b.value) ⟨path, upper b⟩

/-- The outcomes of the checks of a leaf. -/
def ScalarCheck.outcomes (v : Value) (path : String) : ScalarCheck → List Outcome
  | integer range =>
    range.outcomes (·.exceedsInt v.toInt) (.belowMinimum ·.text) (.aboveMaximum ·.text) path
  | float range =>
    range.outcomes (·.exceeds v.toFloating) (.belowMinimum ·.text) (.aboveMaximum ·.text) path
  | string length =>
    length.outcomes (·.exceedsNat v.length) (.tooShort ·.value) (.tooLong ·.value) path
  | byte => []
  | bool => []

/-- The outcomes of the checks of a collection's size. -/
def sizeOutcomes (size : Limits (Bound Nat)) (v : Value) (path : String) : List Outcome :=
  size.outcomes (·.exceedsNat v.size) (.tooFewItems ·.value) (.tooManyItems ·.value) path

/-- The outcomes of the validators of a chain. -/
def Chain.outcomes (chain : Chain) (w : World) (receiver : Receiver) (v : Value) (path : String) :
    List Outcome :=
  chain.map fun c => (c.check w receiver v).under path

namespace Plan

mutual

/-- The outcome of every check of a plan for a value at the given path, in order. -/
def outcomes (w : World) : Plan → Value → String → List Outcome
  | .scalar own chain, v, path => own.outcomes v path ++ chain.outcomes w .value v path
  | .optional nullable inner, v, path =>
    match v.inside? with
    | some u => inner.outcomes w u path
    | none => [.failIf (!nullable) ⟨path, .missing⟩]
  | .array size item, v, path =>
    sizeOutcomes size v path ++ v.items.flatMap fun u => item.outcomes w u (path ++ "[]")
  | .map size k val, v, path =>
    sizeOutcomes size v path ++ v.entries.flatMap fun e =>
      k.outcomes w e.1 (path ++ "[key]") ++ val.outcomes w e.2 (path ++ "[value]")
  | .inline fields chain, v, path =>
    fieldOutcomes w fields v path ++ chain.outcomes w .value v path
  | .delegated chain, v, path => (w.validate v).under path :: chain.outcomes w .value v path
  | .wrapper ty mode inner chain, v, path =>
    inner.outcomes w (unwrap v mode) path ++ chain.outcomes w (.type ty) v path
  | .interface indirect chain, v, path =>
    chain.outcomes w .value (if indirect then v.pointee else v) path
  | .skip, _, _ => []

/-- The outcome of every check of a struct's fields, field by field. -/
def fieldOutcomes (w : World) : List (Field Plan) → Value → String → List Outcome
  | [], _, _ => []
  | ⟨member, name, plan⟩ :: rest, v, path =>
    plan.outcomes w (v.member member) (Context.join path name) ++ fieldOutcomes w rest v path

end

end Plan

/-! ## Checking is going through them -/

theorem Limits.check_eq_inOrder {α : Type} (limits : Limits (Bound α)) (exceeds : Side → α → Bool)
    (lower upper : Bound α → Violation) (path : String) :
    limits.check exceeds lower upper path =
      Outcome.inOrder (limits.outcomes exceeds lower upper path) := by
  obtain ⟨low, high⟩ := limits
  rw [Limits.outcomes, Outcome.inOrder_append]
  cases low <;> cases high <;>
    simp only [Limits.check, Option.toList, List.map, Outcome.inOrder_singleton] <;> rfl

theorem ScalarCheck.check_eq_inOrder (check : ScalarCheck) (v : Value) (path : String) :
    check.check v path = Outcome.inOrder (check.outcomes v path) := by
  cases check with
  | integer range => rw [ScalarCheck.check, outcomes, Limits.check_eq_inOrder]
  | float range => rw [ScalarCheck.check, outcomes, Limits.check_eq_inOrder]
  | string length => rw [ScalarCheck.check, outcomes, Limits.check_eq_inOrder]
  | byte => rfl
  | bool => rfl

theorem Chain.check_eq_inOrder (chain : Chain) (w : World) (receiver : Receiver) (v : Value)
    (path : String) :
    chain.check w receiver v path = Outcome.inOrder (chain.outcomes w receiver v path) :=
  Outcome.forEach_eq_inOrder _ chain

theorem checkSize_eq_inOrder (size : Limits (Bound Nat)) (v : Value) (path : String) :
    checkSize size v path = Outcome.inOrder (sizeOutcomes size v path) :=
  Limits.check_eq_inOrder ..

/-- A plan's check goes through the outcomes of its checks in order. -/
theorem Plan.check_eq_inOrder (w : World) (p : Plan) (v : Value) (path : String) :
    p.check w v path = Outcome.inOrder (p.outcomes w v path) := by
  induction p using Plan.induct generalizing v path with
  | scalar check chain =>
    rw [Plan.check, outcomes, Outcome.inOrder_append, ScalarCheck.check_eq_inOrder,
      Chain.check_eq_inOrder]
  | optional nullable inner ih =>
    rw [Plan.check, outcomes]
    cases v.inside? with
    | some u => exact ih u path
    | none => exact (Outcome.inOrder_singleton _).symm
  | array size item ih =>
    rw [Plan.check, outcomes, Outcome.inOrder_append, checkSize_eq_inOrder,
      Outcome.inOrder_flatMap]
    congr 1
    exact Outcome.forEach_congr fun u _ => ih u _
  | map size k val ihk ihv =>
    rw [Plan.check, outcomes, Outcome.inOrder_append, checkSize_eq_inOrder,
      Outcome.inOrder_flatMap]
    congr 1
    refine Outcome.forEach_congr fun e _ => ?_
    rw [Outcome.inOrder_append, ihk, ihv]
  | inline fields chain ih =>
    rw [Plan.check, outcomes, Outcome.inOrder_append, Chain.check_eq_inOrder]
    congr 1
    clear chain
    induction fields with
    | nil => rfl
    | cons f fields ihf =>
      have hrest := ihf fun g hg => ih g (List.mem_cons_of_mem f hg)
      rw [checkFields, fieldOutcomes, Outcome.inOrder_append, ih f List.mem_cons_self, hrest]
  | delegated chain =>
    rw [Plan.check, outcomes, Outcome.inOrder_cons, Chain.check_eq_inOrder]
  | wrapper ty mode inner chain ih =>
    rw [Plan.check, outcomes, Outcome.inOrder_append, ih, Chain.check_eq_inOrder]
  | interface indirect chain =>
    rw [Plan.check, outcomes, Chain.check_eq_inOrder]
  | skip => rfl

end FieldRules
