import FieldRules.Proofs.Emit.Names
import FieldRules.Proofs.Emit.Shape
import FieldRules.Proofs.Run.Order

/-!
# What code does

Running the code of a plan, one statement and one constructor at a time. The induction on the plan
goes through every context, scope and environment, since code runs below names that other code has
bound; what it needs of these is only the value that the context reaches. So what code does depends
on the value that is checked and on the path of the context, and on nothing else: not on the
expression that reaches the value, the names that are taken or the values they are bound to
(`Plan.run_emit`). `Plan.runAt` is what it does for a value at a path, with one equation for each
constructor.

Code that is left out is no different from code that is there: a statement around an empty body does
nothing (`run_unlessEmpty`), and an element's name may be missing where no code uses it
(`run_entryBody`).
-/

namespace FieldRules

variable (w : World) (env : Env)

/-! ## Expressions -/

theorem Reach.eval_binding (name : String) (v : Value) :
    (Reach.binding name).eval (env.bind name v) = v := by
  simp [Reach.eval, Env.bind]

theorem Reach.eval_binding_of_ne {name other : String} (h : name ≠ other) (v : Value) :
    (Reach.binding name).eval (env.bind other v) = (Reach.binding name).eval env := by
  have hne : (name == other) = false := by simpa using h
  simp [Reach.eval, Env.bind, List.lookup_cons, hne]

theorem Context.join_empty (path : String) : Context.join path "" = path := by
  unfold join
  split
  next h => exact h.symm
  next => rfl

theorem Plan.eval_wrapped (c : Context) (mode : WrapperMode) :
    (wrapped c mode).reach.eval env = unwrap (c.reach.eval env) mode := by
  cases mode <;> rfl

theorem Plan.field_wrapped (c : Context) (mode : WrapperMode) :
    (wrapped c mode).field = c.field := by
  cases mode with
  | transparent => rfl
  | newtype => exact Context.join_empty c.field

/-! ## Statements -/

-- The equations that every proof about code rewrites with.
attribute [local simp] Statement.run runAll Test.holds

theorem runAll_nil : runAll w [] env = .pass := by
  simp

theorem runAll_singleton (s : Statement) : runAll w [s] env = s.run w env := by
  rw [runAll_cons, runAll_nil, Outcome.andThen_pass]

/-- A statement that does nothing around an empty body may be left out there. -/
theorem run_unlessEmpty {wrap : List Statement → Statement} (body : List Statement)
    (h : (wrap []).run w env = .pass) :
    runAll w (unlessEmpty wrap body) env = (wrap body).run w env := by
  cases body with
  | nil => exact (runAll_nil w env).trans h.symm
  | cons s ss => exact runAll_singleton w env _

theorem run_widen_nil (r : Reach) : (Statement.widen r []).run w env = .pass := by
  simp

theorem run_measure_nil (r : Reach) : (Statement.measure r []).run w env = .pass := by
  simp

theorem run_forEach_nil (name : String) (r : Reach) :
    (Statement.forEach name r []).run w env = .pass := by
  simp [Outcome.forEach_pass]

theorem run_forEntries_nil (key val : Option String) (r : Reach) :
    (Statement.forEntries key val r []).run w env = .pass := by
  simp [Outcome.forEach_pass]

theorem run_ifPresent_nil (name : String) (r : Reach) :
    (Statement.ifPresent name r []).run w env = .pass := by
  rw [Statement.run]
  cases (r.eval env).inside? with
  | none => rfl
  | some v => exact runAll_nil w _

/-- The code for an optional value, whichever of its forms it has. -/
theorem run_presence (nullable : Bool) (name : String) (c : Context) (body : List Statement) :
    runAll w (Plan.presence nullable name c body) env =
      match (c.reach.eval env).inside? with
      | some v => runAll w body (env.bind name v)
      | none => .failIf (!nullable) ⟨c.field, .missing⟩ := by
  cases nullable with
  | true =>
    unfold Plan.presence
    rw [if_pos rfl, run_unlessEmpty w env body (run_ifPresent_nil w env name c.reach),
      Statement.run]
    rfl
  | false =>
    cases body with
    | nil =>
      show runAll w [.guard (.absent c.reach) _] env = _
      rw [runAll_singleton, Statement.run, Test.holds]
      cases (c.reach.eval env).inside? with
      | none => rfl
      | some v => exact (runAll_nil w _).symm
    | cons s ss =>
      show runAll w [.matchPresent name c.reach (s :: ss) _] env = _
      rw [runAll_singleton, Statement.run]
      rfl

/-! ## Limits -/

theorem run_guard {α : Type} (limit : Option (Bound α)) (test : α → Test)
    (violation : Bound α → Violation) (field : String) (bad : α → Bool)
    (h : ∀ a, (test a).holds env = bad a) :
    runAll w (limit.toList.map fun b => .guard (test b.value) ⟨field, violation b⟩) env =
      Outcome.inOrder (limit.toList.map fun b => .failIf (bad b.value) ⟨field, violation b⟩) := by
  cases limit with
  | none => exact runAll_nil w env
  | some b =>
    show runAll w [.guard (test b.value) _] env = Outcome.inOrder [_]
    rw [runAll_singleton, Outcome.inOrder_singleton, Statement.run, h]

/-- The guards of limits check them, if their tests tell which values are beyond the limits. -/
theorem run_emitLimits {α : Type} (limits : Limits (Bound α)) (test : Side → α → Test)
    (exceeds : Side → α → Bool) (lower upper : Bound α → Violation) (field : String) (s : Scope)
    (h : ∀ side a, (test side a).holds env = exceeds side a) :
    runAll w (emitLimits limits test lower upper field s).1 env =
      limits.check exceeds lower upper field := by
  rw [Limits.check_eq_inOrder, Limits.outcomes, Outcome.inOrder_append]
  unfold emitLimits
  rw [runAll_append, run_guard w env limits.lower (test .below) lower field (exceeds .below) (h _),
    run_guard w env limits.upper (test .above) upper field (exceeds .above) (h _)]

/-- Whether code finds that an integer is on the wrong side of a limit, after widening it. -/
def Side.exceedsWide (side : Side) (n limit : Int) : Bool :=
  (Test.wide side limit).holds { Env.ofStart .unit with wide := widen n }

/-- What the code for a leaf's own check does. -/
def ScalarCheck.runAt (v : Value) (path : String) : ScalarCheck → Outcome
  | integer range =>
    range.check (·.exceedsWide v.toInt) (.belowMinimum ·.text) (.aboveMaximum ·.text) path
  | check => check.check v path

theorem ScalarCheck.run_emit (check : ScalarCheck) (c : Context) (s : Scope) :
    runAll w (check.emit c s).1 env = check.runAt (c.reach.eval env) c.field := by
  cases check with
  | integer range =>
    rw [emit_integer, run_unlessEmpty w env _ (run_widen_nil w env c.reach), Statement.run]
    refine run_emitLimits w _ range .wide (·.exceedsWide _) _ _ c.field s fun side limit => ?_
    cases side <;> rfl
  | float range =>
    exact run_emitLimits w env range (.float · c.reach ·) _ _ _ c.field s fun _ _ => rfl
  | string length =>
    rw [emit_string, run_unlessEmpty w env _ (run_measure_nil w env c.reach), Statement.run]
    exact run_emitLimits w _ length .length (·.exceedsNat _) _ _ c.field s fun _ _ => rfl
  | byte => exact runAll_nil w env
  | bool => exact runAll_nil w env

/-- A least size of zero excludes nothing. -/
theorem outcomes_filter_pos (lower : Option (Bound Nat)) (n : Nat) (path : String) :
    Outcome.inOrder ((lower.filter (0 < ·.value)).toList.map fun b =>
        .failIf (Side.below.exceedsNat n b.value) ⟨path, .tooFewItems b.value⟩) =
      Outcome.inOrder (lower.toList.map fun b =>
        .failIf (Side.below.exceedsNat n b.value) ⟨path, .tooFewItems b.value⟩) := by
  cases lower with
  | none => rfl
  | some b =>
    by_cases hb : 0 < b.value
    · rw [Option.filter_some_pos (by simpa using hb)]
    · have hzero : b.value = 0 := by omega
      rw [Option.filter_some_neg (by simpa using hzero)]
      show Outcome.pass = Outcome.inOrder [_]
      simp [Outcome.inOrder_singleton, Side.exceedsNat, hzero, Outcome.failIf]

theorem run_emitSize (size : Limits (Bound Nat)) (c : Context) (s : Scope) :
    runAll w (emitSize size c s).1 env = checkSize size (c.reach.eval env) c.field := by
  unfold emitSize
  rw [run_emitLimits w env _ (.size · c.reach ·) (·.exceedsNat (c.reach.eval env).size) _ _ _ s
    fun _ _ => rfl, checkSize, Limits.check_eq_inOrder,
    Limits.check_eq_inOrder, Limits.outcomes, Limits.outcomes, Outcome.inOrder_append,
    Outcome.inOrder_append, outcomes_filter_pos]

/-! ## Chains -/

theorem run_call (v : Validator) (r : Reach) (receiver : Receiver) :
    (v.call r receiver).run w env = v.check w receiver (r.eval env) := by
  cases v with
  | method name => cases receiver <;> rfl
  | function path => rfl

theorem run_chain (chain : Chain) (c : Context) (receiver : Receiver) (s : Scope) :
    runAll w (chain.emit c receiver s).1 env =
      chain.check w receiver (c.reach.eval env) c.field := by
  unfold Chain.emit Chain.check
  induction chain with
  | nil => exact runAll_nil w env
  | cons v chain ih =>
    rw [List.map_cons, runAll_cons, ih, Outcome.forEach_cons, Statement.run, run_call]

/-! ## Code for a value -/

/-- The body of a loop over entries. The code of the key sees the key, that of the value sees the
value, and a part without a name has no code that could see it. -/
theorem run_entryBody {k v : Value} {keyName valueName : String} (hne : keyName ≠ valueName)
    {keyBody valueBody : List Statement} {ok ov : Outcome}
    (hk : ∀ env, (Reach.binding keyName).eval env = k → runAll w keyBody env = ok)
    (hv : ∀ env, (Reach.binding valueName).eval env = v → runAll w valueBody env = ov) :
    runAll w (keyBody ++ valueBody) ((env.bindPart (Plan.partName keyName keyBody) k).bindPart
      (Plan.partName valueName valueBody) v) = ok.andThen ov := by
  rw [runAll_append]
  congr 1
  · cases keyBody with
    | nil =>
      rw [runAll_nil, ← hk (env.bind keyName k) (Reach.eval_binding env keyName k), runAll_nil]
    | cons s ss =>
      refine hk _ ?_
      cases valueBody with
      | nil => exact Reach.eval_binding env keyName k
      | cons t ts =>
        show (Reach.binding keyName).eval (((env.bind keyName k)).bind valueName v) = k
        rw [Reach.eval_binding_of_ne _ hne, Reach.eval_binding]
  · cases valueBody with
    | nil =>
      rw [runAll_nil, ← hv (env.bind valueName v) (Reach.eval_binding env valueName v), runAll_nil]
    | cons t ts => exact hv _ (Reach.eval_binding _ valueName v)

namespace Plan

/-- What the code of a plan does for a value at a path. -/
def runAt (p : Plan) (v : Value) (path : String) : Outcome :=
  runAll w (p.emit ⟨.given [], path, 0⟩ .empty).1 (.ofStart v)

/-- The code of the plan does `f`, wherever it is emitted and run. -/
def RunsAs (p : Plan) (f : Value → String → Outcome) : Prop :=
  ∀ (c : Context) (s : Scope) (env : Env),
    runAll w (p.emit c s).1 env = f (c.reach.eval env) c.field

variable {w}

theorem RunsAs.runAt_eq {p : Plan} {f : Value → String → Outcome} (h : p.RunsAs w f) (v : Value)
    (path : String) : p.runAt w v path = f v path :=
  h ⟨.given [], path, 0⟩ .empty (.ofStart v)

theorem RunsAs.runsAt {p : Plan} {f : Value → String → Outcome} (h : p.RunsAs w f) :
    p.RunsAs w (p.runAt w) := by
  have hf : p.runAt w = f := funext fun v => funext fun path => h.runAt_eq v path
  rwa [hf]

/-- Code for a value that is bound to a minted name. -/
theorem RunsAs.run_minted {p : Plan} {f : Value → String → Outcome} (h : p.RunsAs w f)
    (c : Context) (stem suffix : String) (names : Names) (s : Scope) {env : Env} {u : Value}
    (heval : (Reach.binding (names.mint stem).1).eval env = u) :
    runAll w (p.emit (c.minted stem suffix names) s).1 env = f u (c.field ++ suffix) := by
  subst heval
  exact h (c.minted stem suffix names) s env

theorem runsAs_scalar (own : ScalarCheck) (chain : Chain) :
    (scalar own chain).RunsAs w fun v path =>
      (own.runAt v path).andThen (chain.check w .value v path) := by
  intro c s env
  rw [emit_scalar, runAll_append, ScalarCheck.run_emit, run_chain]

theorem runsAs_optional (nullable : Bool) {inner : Plan} (h : inner.RunsAs w (inner.runAt w)) :
    (optional nullable inner).RunsAs w fun v path =>
      match v.inside? with
      | some u => inner.runAt w u path
      | none => .failIf (!nullable) ⟨path, .missing⟩ := by
  intro c s env
  rw [emit_optional, run_presence]
  generalize hu : (c.reach.eval env).inside? = inside
  cases inside with
  | none => simp only [hu]
  | some u =>
    have hrun := h.run_minted c presentStem "" s.names (s.minted presentStem)
      (Reach.eval_binding env _ u)
    rw [String.append_empty] at hrun
    simp only [hu, hrun]

theorem runsAs_array (size : Limits (Bound Nat)) {item : Plan} (h : item.RunsAs w (item.runAt w)) :
    (array size item).RunsAs w fun v path =>
      (checkSize size v path).andThen
        (Outcome.forEach (fun u => item.runAt w u (path ++ "[]")) v.items) := by
  intro c s env
  rw [emit_array, runAll_append, run_emitSize, run_unlessEmpty w env _ (run_forEach_nil w env ..),
    Statement.run]
  congr 1
  refine Outcome.forEach_congr fun u _ => ?_
  exact h.run_minted c itemStem "[]" _ _ (Reach.eval_binding env _ u)

theorem runsAs_map (size : Limits (Bound Nat)) {k v : Plan} (hk : k.RunsAs w (k.runAt w))
    (hv : v.RunsAs w (v.runAt w)) :
    (map size k v).RunsAs w fun m path =>
      (checkSize size m path).andThen
        (Outcome.forEach (fun e => (k.runAt w e.1 (path ++ "[key]")).andThen
          (v.runAt w e.2 (path ++ "[value]"))) m.entries) := by
  intro c s env
  rw [emit_map, runAll_append, run_emitSize, run_unlessEmpty w env _ (run_forEntries_nil w env ..),
    Statement.run]
  congr 1
  refine Outcome.forEach_congr fun e _ => ?_
  have hne : ∀ n n' : Names, (n.mint keyStem).1 ≠ (n'.mint valueStem).1 :=
    Names.mint_ne (by decide) (by decide) (by decide)
  exact run_entryBody w env (hne _ _)
    (fun _ heval => hk.run_minted c keyStem "[key]" _ _ heval)
    (fun _ heval => hv.run_minted c valueStem "[value]" _ _ heval)

/-- What the code for the fields of a struct does. -/
def fieldsRunAt (w : World) (fields : List (Field Plan)) (v : Value) (path : String) : Outcome :=
  Outcome.forEach
    (fun f => f.node.runAt w (v.member f.member) (Context.join path f.name)) fields

theorem runAll_emitFields {fields : List (Field Plan)}
    (h : ∀ f ∈ fields, f.node.RunsAs w (f.node.runAt w)) (c : Context) (s : Scope) (env : Env) :
    runAll w (emitFields fields c s).1 env = fieldsRunAt w fields (c.reach.eval env) c.field := by
  induction fields generalizing s with
  | nil => exact runAll_nil w env
  | cons f fields ih =>
    have hfirst := h f List.mem_cons_self (c.member f.member f.name) s env
    have hrest := ih fun g hg => h g (List.mem_cons_of_mem f hg)
    rw [emitFields_cons, runAll_append, hfirst, hrest, fieldsRunAt, fieldsRunAt,
      Outcome.forEach_cons]
    rfl

theorem runsAs_inline {fields : List (Field Plan)}
    (h : ∀ f ∈ fields, f.node.RunsAs w (f.node.runAt w)) (chain : Chain) :
    (inline fields chain).RunsAs w fun v path =>
      (fieldsRunAt w fields v path).andThen (chain.check w .value v path) := by
  intro c s env
  rw [emit_inline, runAll_append, runAll_emitFields h, run_chain]

theorem runsAs_delegated (chain : Chain) :
    (delegated chain).RunsAs w fun v path =>
      ((w.validate v).under path).andThen (chain.check w .value v path) := by
  intro c s env
  rw [emit_delegated, runAll_cons, run_chain, Statement.run]

theorem runsAs_wrapper (ty : Ty) (mode : WrapperMode) {inner : Plan} (chain : Chain)
    (h : inner.RunsAs w (inner.runAt w)) :
    (wrapper ty mode inner chain).RunsAs w fun v path =>
      (inner.runAt w (unwrap v mode) path).andThen (chain.check w (.type ty) v path) := by
  intro c s env
  rw [emit_wrapper, runAll_append, h (wrapped c mode) s env, run_chain, eval_wrapped, field_wrapped]

theorem runsAs_interface (indirect : Bool) (chain : Chain) :
    (interface indirect chain).RunsAs w fun v path =>
      chain.check w .value (if indirect then v.pointee else v) path := by
  intro c s env
  rw [emit_interface, run_chain]
  cases indirect <;> rfl

theorem runsAs_skip : skip.RunsAs w fun _ _ => .pass :=
  fun _ _ env => runAll_nil w env

/-- What code does depends on the value that it is for and on the path. -/
theorem run_emit (p : Plan) : p.RunsAs w (p.runAt w) := by
  induction p using Plan.induct with
  | scalar check chain => exact (runsAs_scalar check chain).runsAt
  | optional nullable inner ih => exact (runsAs_optional nullable ih).runsAt
  | array size item ih => exact (runsAs_array size ih).runsAt
  | map size k v ihk ihv => exact (runsAs_map size ihk ihv).runsAt
  | inline fields chain ih => exact (runsAs_inline ih chain).runsAt
  | delegated chain => exact (runsAs_delegated chain).runsAt
  | wrapper ty mode inner chain ih => exact (runsAs_wrapper ty mode chain ih).runsAt
  | interface indirect chain => exact (runsAs_interface indirect chain).runsAt
  | skip => exact runsAs_skip.runsAt

/-! ## The code of each kind of plan -/

section Equations

variable (v : Value) (path : String)

theorem runAt_scalar (own : ScalarCheck) (chain : Chain) :
    (scalar own chain).runAt w v path =
      (own.runAt v path).andThen (chain.check w .value v path) :=
  (runsAs_scalar own chain).runAt_eq v path

theorem runAt_optional (nullable : Bool) (inner : Plan) :
    (optional nullable inner).runAt w v path =
      match v.inside? with
      | some u => inner.runAt w u path
      | none => .failIf (!nullable) ⟨path, .missing⟩ :=
  (runsAs_optional nullable inner.run_emit).runAt_eq v path

theorem runAt_array (size : Limits (Bound Nat)) (item : Plan) :
    (array size item).runAt w v path =
      (checkSize size v path).andThen
        (Outcome.forEach (fun u => item.runAt w u (path ++ "[]")) v.items) :=
  (runsAs_array size item.run_emit).runAt_eq v path

theorem runAt_map (size : Limits (Bound Nat)) (key value : Plan) :
    (map size key value).runAt w v path =
      (checkSize size v path).andThen
        (Outcome.forEach (fun e => (key.runAt w e.1 (path ++ "[key]")).andThen
          (value.runAt w e.2 (path ++ "[value]"))) v.entries) :=
  (runsAs_map size key.run_emit value.run_emit).runAt_eq v path

theorem runAt_inline (fields : List (Field Plan)) (chain : Chain) :
    (inline fields chain).runAt w v path =
      (fieldsRunAt w fields v path).andThen (chain.check w .value v path) :=
  (runsAs_inline (fun f _ => f.node.run_emit) chain).runAt_eq v path

theorem runAt_delegated (chain : Chain) :
    (delegated chain).runAt w v path =
      ((w.validate v).under path).andThen (chain.check w .value v path) :=
  (runsAs_delegated chain).runAt_eq v path

theorem runAt_wrapper (ty : Ty) (mode : WrapperMode) (inner : Plan) (chain : Chain) :
    (wrapper ty mode inner chain).runAt w v path =
      (inner.runAt w (unwrap v mode) path).andThen (chain.check w (.type ty) v path) :=
  (runsAs_wrapper ty mode chain inner.run_emit).runAt_eq v path

theorem runAt_interface (indirect : Bool) (chain : Chain) :
    (interface indirect chain).runAt w v path =
      chain.check w .value (if indirect then v.pointee else v) path :=
  (runsAs_interface indirect chain).runAt_eq v path

theorem runAt_skip : skip.runAt w v path = .pass :=
  runsAs_skip.runAt_eq v path

end Equations

end Plan

end FieldRules
