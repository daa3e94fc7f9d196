import FieldRules.Proofs.Config.Slots
import FieldRules.Proofs.Run.Rooting

/-!
# Delegated checks in place

A struct that checks itself may be checked in place instead: its plan takes the place of the
delegated node, at any depth of another plan (`Plan.replace`). The code of the two plans does the
same for every value whose parts at that place check themselves by the code of the struct
(`Plan.agreeOn_replace`). In place, the code reports the paths it was emitted with; delegated, it
reports paths of its own, which the holder sets below its own path. That these agree is the law of
code below a path (`Plan.runAt_under`). Validators of the delegated node are called after the checks
of the struct, so the plan that takes its place has them as well (`Plan.Extends`).
-/

namespace FieldRules

namespace Plan

/-! ## Parts of a plan -/

/-- The part of a plan that a step leads to. -/
def child? : Step → Plan → Option Plan
  | .inside, .optional _ inner => some inner
  | .wrapped, .wrapper _ _ inner _ => some inner
  | .item, .array _ item => some item
  | .key, .map _ key _ => some key
  | .value, .map _ _ value => some value
  | .field n, .inline fields _ => fields[n]?.map Field.node
  | _, _ => none

/-- The plan with another one in the place of a part. -/
def put : Step → Plan → Plan → Plan
  | .inside, .optional nullable _, p => .optional nullable p
  | .wrapped, .wrapper ty mode _ chain, p => .wrapper ty mode p chain
  | .item, .array size _, p => .array size p
  | .key, .map size _ value, p => .map size p value
  | .value, .map size key _, p => .map size key p
  | .field n, .inline fields chain, p => .inline (fields.modify n ({ · with node := p })) chain
  | _, q, _ => q

/-- The values that the part of a plan is for, of a value that the plan is for. -/
def parts (v : Value) : Step → Plan → List Value
  | .inside, .optional .. => v.inside?.toList
  | .wrapped, .wrapper _ mode _ _ => [unwrap v mode]
  | .item, .array .. => v.items
  | .key, .map .. => v.entries.map (·.1)
  | .value, .map .. => v.entries.map (·.2)
  | .field n, .inline fields _ => (fields[n]?.map fun f => v.member f.member).toList
  | _, _ => []

/-- The plan at the end of a path of steps. -/
def at? : List Step → Plan → Option Plan
  | [], p => some p
  | st :: steps, p => (p.child? st).bind (at? steps)

/-- The plan with another one at the end of a path of steps. -/
def replace (p : Plan) : List Step → Plan → Plan
  | [], _ => p
  | st :: steps, q => ((q.child? st).map fun part => q.put st (p.replace steps part)).getD q

/-- The values at the end of a path of steps. -/
def reached : List Step → Plan → Value → List Value
  | [], _, v => [v]
  | st :: steps, p, v =>
    (p.child? st).elim [] fun part => (parts v st p).flatMap (part.reached steps)

/-! ## Another part that does the same -/

variable {w : World}

/-- Two plans whose code does the same for a value, at every path. -/
def AgreeOn (w : World) (p q : Plan) (v : Value) : Prop :=
  ∀ path, p.runAt w v path = q.runAt w v path

theorem fieldsRunAt_modify {p q : Plan} {n : Nat} {fields : List (Field Plan)} {v : Value}
    (hq : fields[n]?.map Field.node = some q)
    (h : ∀ u ∈ (fields[n]?.map fun f => v.member f.member).toList, p.AgreeOn w q u)
    (path : String) :
    fieldsRunAt w (fields.modify n ({ · with node := p })) v path =
      fieldsRunAt w fields v path := by
  unfold fieldsRunAt
  induction fields generalizing n with
  | nil => simp at hq
  | cons f fields ih =>
    cases n with
    | zero =>
      have hnode : f.node = q := by simpa using hq
      have hagree : p.AgreeOn w q (v.member f.member) := by simpa using h
      simp only [List.modify_zero_cons, Outcome.forEach_cons, hagree _, hnode]
    | succ n =>
      have hrest := ih (n := n) (by simpa using hq) (by simpa using h)
      simp only [List.modify_succ_cons, Outcome.forEach_cons, hrest]

/-- A plan does the same with another part that does the same for the values of the part. -/
theorem agreeOn_put {st : Step} {p q r : Plan} {v : Value} (hq : p.child? st = some q)
    (h : ∀ u ∈ parts v st p, r.AgreeOn w q u) : (p.put st r).AgreeOn w p v := by
  intro path
  cases p with
  | optional nullable inner =>
    cases st with
    | inside =>
      cases hq
      rw [put, runAt_optional, runAt_optional]
      cases hu : v.inside? with
      | none => rfl
      | some u => exact h u (by simp [parts, hu]) path
    | _ => rfl
  | wrapper ty mode inner chain =>
    cases st with
    | wrapped =>
      cases hq
      rw [put, runAt_wrapper, runAt_wrapper, h (unwrap v mode) (by simp [parts]) path]
    | _ => rfl
  | array size item =>
    cases st with
    | item =>
      cases hq
      rw [put, runAt_array, runAt_array]
      congr 1
      exact Outcome.forEach_congr fun u hu => h u hu _
    | _ => rfl
  | map size key value =>
    cases st with
    | key =>
      cases hq
      rw [put, runAt_map, runAt_map]
      congr 1
      refine Outcome.forEach_congr fun e he => ?_
      rw [h e.1 (List.mem_map_of_mem he)]
    | value =>
      cases hq
      rw [put, runAt_map, runAt_map]
      congr 1
      refine Outcome.forEach_congr fun e he => ?_
      rw [h e.2 (List.mem_map_of_mem he)]
    | _ => rfl
  | inline fields chain =>
    cases st with
    | field n => rw [put, runAt_inline, runAt_inline, fieldsRunAt_modify hq h]
    | _ => rfl
  | _ => cases st <;> rfl

/-- The same at any depth. -/
theorem agreeOn_replace {steps : List Step} {p q r : Plan} {v : Value} (hq : p.at? steps = some q)
    (h : ∀ u ∈ p.reached steps v, r.AgreeOn w q u) : (r.replace steps p).AgreeOn w p v := by
  induction steps generalizing p v with
  | nil =>
    cases hq
    exact h v (by simp [reached])
  | cons st steps ih =>
    cases hc : p.child? st with
    | none => rw [at?, hc] at hq; cases hq
    | some part =>
      rw [at?, hc, Option.bind_some] at hq
      have hrest : ∀ u ∈ parts v st p, (r.replace steps part).AgreeOn w part u := by
        intro u hu
        refine ih hq fun x hx => h x ?_
        rw [reached, hc]
        exact List.mem_flatMap.mpr ⟨u, hu, hx⟩
      rw [replace, hc]
      exact agreeOn_put hc hrest

/-! ## Structs that check themselves -/

theorem run_eq_runAt (p : Plan) (v : Value) : p.run w v = p.runAt w v "" :=
  p.run_emit .root .empty (.ofStart v)

/-- The code of a plan is that of another one, followed by the calls of a chain. -/
def Extends (r p : Plan) (chain : Chain) : Prop :=
  ∀ c s, (r.emit c s).1 = (p.emit c s).1 ++ (chain.emit c .value (p.emit c s).2).1

theorem extends_inline (fields : List (Field Plan)) (own chain : Chain) :
    (inline fields (own ++ chain)).Extends (inline fields own) chain := by
  intro c s
  simp only [emit_inline, Chain.emit, List.map_append, List.append_assoc]

theorem Extends.runAt_eq {r p : Plan} {chain : Chain} (h : r.Extends p chain) (v : Value)
    (path : String) :
    r.runAt w v path = (p.runAt w v path).andThen (chain.check w .value v path) := by
  rw [runAt, h, runAll_append, run_chain]
  rfl

/-- A value that checks itself by the code of a plan is checked as the plan checks it in place, and
then by the validators of the field. -/
theorem runAt_delegated_eq {p : Plan} (hp : p.PlainNames) {v : Value}
    (hv : w.validate v = p.run w v) (chain : Chain) (path : String) :
    (delegated chain).runAt w v path =
      (p.runAt w v path).andThen (chain.check w .value v path) := by
  have hbelow : p.runAt w v path = (p.runAt w v "").under path := by
    have := runAt_under (w := w) hp v path ""
    rwa [Failure.joinPath_empty_right] at this
  rw [runAt_delegated, hv, run_eq_runAt, hbelow]

/-- **Paths of code and paths of failures agree.** Code for a plan, at the path of any context, does
what the code for the same value at the empty path does, below that path. So a struct that checks
itself by the code of a plan may be checked in place: delegating to it does what the code of the
plan does, before the validators of the field. In any plan, the plan of the struct, extended by
these validators, can take the place of a delegated node, however deep it is, if the values at that
place check themselves by the struct's code. Names of fields must not look like the paths of
elements. -/
theorem emit_reroots {p : Plan} (hp : p.PlainNames) (w : World) :
    (∀ (c : Context) (s s' : Scope) (env : Env),
      runAll w (p.emit c s).1 env =
        (runAll w (p.emit { c with field := "" } s').1 env).under c.field) ∧
    (∀ (chain : Chain) (c : Context) (s s' : Scope) (env : Env),
      w.validate (c.reach.eval env) = p.run w (c.reach.eval env) →
      runAll w ((delegated chain).emit c s).1 env =
        (runAll w (p.emit c s').1 env).andThen
          (chain.check w .value (c.reach.eval env) c.field)) ∧
    ∀ (q r : Plan) (chain : Chain) (steps : List Step) (c : Context) (s s' : Scope) (env : Env),
      q.at? steps = some (delegated chain) → r.Extends p chain →
      (∀ v ∈ q.reached steps (c.reach.eval env), w.validate v = p.run w v) →
      runAll w (q.emit c s).1 env = runAll w ((r.replace steps q).emit c s').1 env := by
  refine ⟨fun c s s' env => ?_, fun chain c s s' env hv => ?_,
    fun q r chain steps c s s' env hq hr hv => ?_⟩
  · have hbelow := runAt_under (w := w) hp (c.reach.eval env) c.field ""
    rw [Failure.joinPath_empty_right] at hbelow
    rw [p.run_emit c s env, p.run_emit { c with field := "" } s' env, hbelow]
  · rw [(delegated chain).run_emit c s env, p.run_emit c s' env, runAt_delegated_eq hp hv]
  · have hagree : (r.replace steps q).AgreeOn w q (c.reach.eval env) := by
      refine agreeOn_replace hq fun v hmem path => ?_
      rw [hr.runAt_eq, runAt_delegated_eq hp (hv v hmem)]
    rw [q.run_emit c s env, (r.replace steps q).run_emit c s' env, hagree]

/-- A call of a function. -/
def checkChain : Chain := [.function ⟨false, []⟩]

/-- A named map of dogs whose names have at most three characters and are not refused by a
function. -/
def dogsPlan : Plan :=
  let name : Plan := .scalar (.string ⟨none, some ⟨"3", 3⟩⟩) checkChain
  .wrapper (.path false [.mk (.ofName "Self") .none]) .newtype
    (.map .none (.scalar (.string .none) []) (.inline [⟨.named (.ofName "name"), "name", name⟩] []))
    []

def kennelFields : List (Field Plan) := [⟨.named (.ofName "dogs"), "dogs", dogsPlan⟩]

/-- An owner who may have kennels that check themselves and are then passed to the function. -/
def ownerPlan : Plan :=
  .optional true
    (.inline [⟨.named (.ofName "kennels"), "kennels", .array .none (.delegated checkChain)⟩] [])

/-- Kennels check themselves field by field; the function refuses names that begin with a blank, at
a path of its own. -/
def kennelWorld : World :=
  let function (_ : Path) (v : Value) : Outcome :=
    .failIf (v.toText.toList.head? = some ' ') ⟨"[0]", .custom "blank"⟩
  let inner : World := ⟨fun _ _ => .pass, fun _ _ _ => .pass, function, fun _ => .pass⟩
  { inner with validate := (inline kennelFields []).run inner }

/-- A kennel with one dog. -/
def kennelValue (name : String) : Value :=
  let dog : Value := .record "Dog" [(.named (.ofName "name"), .text name)]
  .record "Kennel"
    [(.named (.ofName "dogs"), .record "Dogs" [(.index 0, .mapping [(.text "first", dog)])])]

/-- An owner of two kennels; the function refuses the name of the second dog. -/
def ownerValue : Value :=
  .present (.record "Owner"
    [(.named (.ofName "kennels"), .sequence [kennelValue "Rex", kennelValue " Bo"])])

theorem emit_reroots_kennels :
    let p : Plan := .inline kennelFields []
    let r : Plan := .inline kennelFields ([] ++ checkChain)
    let steps : List Step := [.inside, .field 0, .item]
    let c : Context := ⟨.given [.ident "owner"], "owner", 0⟩
    let env : Env := .ofStart ownerValue
    let kennel : Env := .ofStart (kennelValue " Bo")
    let delegatedCode := (ownerPlan.emit c .empty).1
    let codeInPlace := ((r.replace steps ownerPlan).emit c .empty).1
    (p.PlainNames ∧ ownerPlan.at? steps = some (.delegated checkChain) ∧
      r.Extends p checkChain ∧
      ∀ v ∈ ownerPlan.reached steps ownerValue, kennelWorld.validate v = p.run kennelWorld v) ∧
      runAll kennelWorld (p.emit c .empty).1 kennel =
        (runAll kennelWorld (p.emit { c with field := "" } .empty).1 kennel).under "owner" ∧
      runAll kennelWorld ((delegated checkChain).emit c .empty).1 kennel =
        (runAll kennelWorld (p.emit c .empty).1 kennel).andThen
          (checkChain.check kennelWorld .value (kennelValue " Bo") "owner") ∧
      runAll kennelWorld delegatedCode env = runAll kennelWorld codeInPlace env ∧
      runAll kennelWorld delegatedCode env =
        .fail ⟨"owner.kennels[].dogs[value].name[0]", .custom "blank"⟩ := by
  intro p r steps c env kennel delegatedCode codeInPlace
  have hp : p.PlainNames := by
    unfold PlainNames
    decide
  have hat : ownerPlan.at? steps = some (.delegated checkChain) := rfl
  have hr : r.Extends p checkChain := extends_inline kennelFields [] checkChain
  have hself : ∀ v ∈ ownerPlan.reached steps ownerValue,
      kennelWorld.validate v = p.run kennelWorld v := by decide +kernel
  have hkennel : kennelWorld.validate (kennelValue " Bo") =
      p.run kennelWorld (kennelValue " Bo") := by decide +kernel
  have h := emit_reroots hp kennelWorld
  exact ⟨⟨hp, hat, hr, hself⟩, h.1 c .empty .empty kennel,
    h.2.1 checkChain c .empty .empty kennel hkennel,
    h.2.2 ownerPlan r checkChain steps c .empty .empty env hat hr hself, by decide +kernel⟩

end Plan

end FieldRules
