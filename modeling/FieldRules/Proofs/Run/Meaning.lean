import FieldRules.Proofs.Config.Freezing
import FieldRules.Proofs.Run.Code
import FieldRules.Proofs.Run.Range

/-!
# What emitted code means

Running the code that is emitted for a plan gives what the plan's checks give in order. What code
does for a value is known one constructor at a time (`Plan.runAt`), and the checks are defined in
the same way, so that the two differ in one place only: code widens an integer to 128 bits before it
compares it. That makes no difference to limits of at most 128 bits and integers that are not below
all of them (`Side.exceedsWide_eq`).
-/

namespace FieldRules

/-! ## Leaves -/

/-- A widened integer is beyond a limit of 128 bits exactly if the integer is. One that does not fit
is above the limit. -/
theorem Side.exceedsWide_eq {n limit : Int} (hn : Bound.leastInteger ≤ n)
    (hl : limit ≤ Bound.greatestInteger) (side : Side) :
    side.exceedsWide n limit = side.exceedsInt n limit := by
  unfold exceedsWide
  by_cases hfit : n ≤ Bound.greatestInteger
  · have hw : widen n = some n := by rw [widen, if_pos ⟨hn, hfit⟩]
    cases side <;> simp [Test.holds, Side.exceedsInt, hw]
  · have hw : widen n = none := by rw [widen, if_neg fun h => hfit h.2]
    cases side <;> simp [Test.holds, Side.exceedsInt, hw] <;> omega

theorem Limits.check_congr {α : Type} {limits : Limits (Bound α)}
    {exceeds exceeds' : Side → α → Bool}
    (h : limits.All fun a => ∀ side, exceeds side a = exceeds' side a)
    (lower upper : Bound α → Violation) (path : String) :
    limits.check exceeds lower upper path = limits.check exceeds' lower upper path := by
  obtain ⟨low, high⟩ := limits
  cases low with
  | none =>
    cases high with
    | none => rfl
    | some u => simp only [check, h.2 u rfl .above]
  | some l =>
    cases high with
    | none => simp only [check, h.1 l rfl .below]
    | some u => simp only [check, h.1 l rfl .below, h.2 u rfl .above]

/-- The code of a leaf's own check. -/
theorem ScalarCheck.runAt_eq_check {check : ScalarCheck} (hc : check.Bounded) {v : Value}
    (hv : v.InRange) (path : String) : check.runAt v path = check.check v path := by
  cases check with
  | integer range =>
    unfold ScalarCheck.Bounded at hc
    rw [runAt, check]
    refine Limits.check_congr ?_ _ _ path
    exact Limits.All.imp hc fun a ha side => side.exceedsWide_eq hv.le_toInt ha.2
  | _ => rfl

/-! ## Plans -/

variable (w : World)

/-- The code emitted for the plan does what its checks do, whatever context it is emitted for. -/
def Plan.Faithful (p : Plan) : Prop :=
  ∀ (c : Context) (s : Scope) (env : Env), (c.reach.eval env).InRange →
    runAll w (p.emit c s).1 env = p.check w (c.reach.eval env) c.field

namespace Plan

variable {w}

theorem fieldsRunAt_eq_checkFields {fields : List (Field Plan)} {v : Value} (hv : v.InRange)
    (h : ∀ f ∈ fields, ∀ {u : Value}, u.InRange → ∀ path,
      f.node.runAt w u path = f.node.check w u path) (path : String) :
    fieldsRunAt w fields v path = checkFields w fields v path := by
  unfold fieldsRunAt
  induction fields with
  | nil => rfl
  | cons f fields ih =>
    have hrest := ih fun g hg => h g (List.mem_cons_of_mem f hg)
    rw [Outcome.forEach_cons, hrest, h f List.mem_cons_self (hv.member f.member)]
    rfl

/-- The code of a plan with bounded limits does what the checks of the plan do. -/
theorem Bounded.runAt_eq_check {p : Plan} (h : p.Bounded) {v : Value} (hv : v.InRange)
    (path : String) : p.runAt w v path = p.check w v path := by
  induction h generalizing v path with
  | scalar chain h => rw [runAt_scalar, ScalarCheck.runAt_eq_check h hv, check]
  | optional nullable h ih =>
    rw [runAt_optional, check]
    cases hu : v.inside? with
    | none => rfl
    | some u => exact ih (hv.inside hu) path
  | array size h ih =>
    rw [runAt_array, check]
    congr 1
    exact Outcome.forEach_congr fun u hu => ih (hv.items u hu) _
  | map size hk hv' ihk ihv =>
    rw [runAt_map, check]
    congr 1
    refine Outcome.forEach_congr fun e he => ?_
    obtain ⟨hkey, hval⟩ := hv.entries e he
    rw [ihk hkey, ihv hval]
  | inline chain h ih => rw [runAt_inline, fieldsRunAt_eq_checkFields hv ih, check]
  | delegated chain => rw [runAt_delegated, check]
  | wrapper ty mode chain h ih =>
    have hunwrap : (unwrap v mode).InRange := by
      cases mode with
      | transparent => exact hv
      | newtype => exact hv.member (.index 0)
    rw [runAt_wrapper, ih hunwrap, check]
  | interface indirect chain => rw [runAt_interface, check]
  | skip => rw [runAt_skip, check]

/-- The code emitted for a plan with bounded limits does what the plan's checks do. -/
theorem Bounded.faithful {p : Plan} (h : p.Bounded) : p.Faithful w := by
  intro c s env hv
  rw [p.run_emit c s env, h.runAt_eq_check hv]

end Plan

/-- The code of a tree that freezes, emitted for any context and run on any value whose integers
have at most 128 bits, does what the checks of its plan do in order: it fails as the first failing
check, and falls through exactly if no check fails. -/
theorem run_emit_of_freeze {d : Draft} {plan : Plan} (h : d.freeze = .ok plan) (w : World)
    (c : Context) (s : Scope) (env : Env) (hv : (c.reach.eval env).InRange) :
    let result := runAll w (plan.emit c s).1 env
    let checks := plan.outcomes w (c.reach.eval env) c.field
    result = plan.check w (c.reach.eval env) c.field ∧
      result.failure = checks.findSome? Outcome.failure ∧
      (result.failure = none ↔ ∀ o ∈ checks, o.failure = none) := by
  intro result checks
  have hrun : result = plan.check w (c.reach.eval env) c.field :=
    (Draft.bounded_of_freeze h).faithful c s env hv
  have hfirst : result.failure = checks.findSome? Outcome.failure := by
    rw [hrun, Plan.check_eq_inOrder]
    exact Outcome.failure_inOrder checks
  refine ⟨hrun, hfirst, ?_⟩
  rw [hfirst, List.findSome?_eq_none_iff]

/-- Optional lists of amounts, each of them at most 7 and refused or not by a method, below keys
that are not checked. -/
def amountsDraft : Draft :=
  .map ⟨some "0", some "2"⟩ (.leaf .string)
    (.optional false true (.array ⟨none, some "3"⟩
      (.scalar .integer ⟨none, some "7"⟩ (some ".even"))))

/-- The plan of `amountsDraft`. -/
def amountsPlan : Plan :=
  .map ⟨some ⟨"0", 0⟩, some ⟨"2", 2⟩⟩ (.scalar (.string .none) [])
    (.optional false (.array ⟨none, some ⟨"3", 3⟩⟩
      (.scalar (.integer ⟨none, some ⟨"7", 7⟩⟩) [.method (.ofName "even")])))

/-- A map whose second list ends with an unsigned amount of 128 bits that no signed one can be. -/
def amounts : Value :=
  .mapping [(.text "a", .present (.sequence [.integer 4])),
    (.text "b", .present (.sequence [.integer 6, .integer (Nat.pow 2 127)]))]

theorem run_emit_of_freeze_amounts :
    let w : World := ⟨fun name _ => ⟨[name.text], none⟩, fun _ _ _ => .pass, fun _ _ => .pass,
      fun _ => .pass⟩
    let env : Env := .ofStart amounts
    let result := runAll w (amountsPlan.emit .root .empty).1 env
    let checks := amountsPlan.outcomes w amounts ""
    (amountsDraft.freeze = .ok amountsPlan ∧ amounts.InRange) ∧
      (result = amountsPlan.check w amounts "" ∧
        result.failure = checks.findSome? Outcome.failure ∧
        (result.failure = none ↔ ∀ o ∈ checks, o.failure = none)) ∧
      result = ⟨["even", "even"], some ⟨"[value][]", .aboveMaximum "7"⟩⟩ := by
  intro w env result checks
  have hint : ∀ n : Int, 0 ≤ n → (Value.integer n).InRange :=
    fun n hn => .integer (Int.le_trans (by decide) hn)
  have hrange : amounts.InRange := by
    refine .mapping ?_ ?_
    · simp only [List.forall_mem_cons, List.not_mem_nil, false_implies, implies_true, and_true]
      exact ⟨.text "a", .text "b"⟩
    · simp only [List.forall_mem_cons, List.not_mem_nil, false_implies, implies_true, and_true]
      refine ⟨.present (.sequence ?_), .present (.sequence ?_)⟩
      · exact List.forall_mem_singleton.mpr (hint 4 (by decide))
      · exact List.forall_mem_cons.mpr ⟨hint 6 (by decide), List.forall_mem_singleton.mpr
          (hint (Nat.pow 2 127) (by decide))⟩
  have hfreeze : amountsDraft.freeze = .ok amountsPlan := rfl
  exact ⟨⟨hfreeze, hrange⟩, run_emit_of_freeze hfreeze w .root .empty env hrange,
    by decide +kernel⟩

end FieldRules
