import FieldRules.Proofs.Run.Code

/-!
# Code below a path

Paths are put together in two places: contexts extend them while code is emitted, and a failure is
set below the path of its holder while code runs. Both are `Failure.joinPath`, which is associative
(`Failure.joinPath_assoc`). So code at a path fails as code at the empty path does, below that path
(`Plan.runAt_under`).
-/

namespace FieldRules

/-! ## Paths -/

namespace Failure

theorem joinPath_empty_left (path : String) : joinPath "" path = path := by
  simp [joinPath]

theorem joinPath_empty_right (path : String) : joinPath path "" = path := by
  by_cases h : path = "" <;> simp [joinPath, h]

/-- A path goes below another one by this text between them. -/
def separator (path : String) : String := if path.toList.head? = some '[' then "" else "."

theorem joinPath_eq_append {a b : String} (ha : a ≠ "") (hb : b ≠ "") :
    joinPath a b = a ++ separator b ++ b := by
  unfold joinPath separator
  rw [if_neg ha, if_neg hb]
  split <;> simp

theorem separator_append {a : String} (ha : a ≠ "") (b : String) :
    separator (a ++ b) = separator a := by
  obtain ⟨c, s, hcs⟩ := List.exists_cons_of_ne_nil (l := a.toList) (by simpa using ha)
  simp [separator, hcs]

/-- Going below a path is associative. -/
theorem joinPath_assoc (a b c : String) :
    joinPath (joinPath a b) c = joinPath a (joinPath b c) := by
  by_cases ha : a = ""
  · rw [ha, joinPath_empty_left, joinPath_empty_left]
  by_cases hb : b = ""
  · rw [hb, joinPath_empty_right, joinPath_empty_left]
  by_cases hc : c = ""
  · rw [hc, joinPath_empty_right, joinPath_empty_right]
  have hab : joinPath a b ≠ "" := by
    rw [joinPath_eq_append ha hb]
    simp [ha]
  have hbc : joinPath b c ≠ "" := by
    rw [joinPath_eq_append hb hc]
    simp [hb]
  have hsep : separator (joinPath b c) = separator b := by
    rw [joinPath_eq_append hb hc, String.append_assoc, separator_append hb]
  rw [joinPath_eq_append hab hc, joinPath_eq_append ha hbc, hsep, joinPath_eq_append ha hb,
    joinPath_eq_append hb hc]
  simp only [String.append_assoc]

/-- The path of an element, a key or a value. -/
theorem append_eq_joinPath {suffix : String} (h : suffix.toList.head? = some '[') (path : String) :
    path ++ suffix = joinPath path suffix := by
  have hne : suffix ≠ "" := by rintro rfl; cases h
  by_cases hp : path = "" <;> simp [joinPath, hp, hne, h]

/-- The path of a field, unless its name looks like that of an element. -/
theorem join_eq_joinPath {name : String} (h : name.toList.head? ≠ some '[') (path : String) :
    Context.join path name = joinPath path name := by
  simp only [Context.join, joinPath, if_neg h]

theorem under_under (a b : String) (f : Failure) :
    (f.under b).under a = f.under (joinPath a b) := by
  simp only [under, joinPath_assoc]

end Failure

open Failure (joinPath)

namespace Outcome

theorem under_under (a b : String) (o : Outcome) :
    (o.under b).under a = o.under (joinPath a b) := by
  have hcomp : (fun f : Failure => f.under a) ∘ (fun f : Failure => f.under b) =
      fun f : Failure => f.under (joinPath a b) := funext (Failure.under_under a b)
  simp only [under, Option.map_map, hcomp]

theorem under_andThen (path : String) (a b : Outcome) :
    (a.andThen b).under path = (a.under path).andThen (b.under path) := by
  obtain ⟨called, failure⟩ := a
  cases failure <;> rfl

theorem under_forEach {α : Type} (path : String) (run : α → Outcome) (as : List α) :
    (forEach run as).under path = forEach (fun a => (run a).under path) as := by
  induction as with
  | nil => rfl
  | cons a as ih => rw [forEach_cons, under_andThen, ih, forEach_cons]

theorem under_failIf (path : String) (bad : Bool) (f : Failure) :
    (failIf bad f).under path = failIf bad (f.under path) := by
  cases bad <;> rfl

end Outcome

/-! ## Leaves and sizes below a path -/

theorem Limits.check_under {α : Type} (limits : Limits (Bound α)) (exceeds : Side → α → Bool)
    (lower upper : Bound α → Violation) (path field : String) :
    limits.check exceeds lower upper (joinPath path field) =
      (limits.check exceeds lower upper field).under path := by
  obtain ⟨low, high⟩ := limits
  rw [Limits.check, Limits.check, Outcome.under_andThen]
  cases low <;> cases high <;> simp only [Outcome.under_failIf] <;> rfl

theorem checkSize_under (size : Limits (Bound Nat)) (v : Value) (path field : String) :
    checkSize size v (joinPath path field) = (checkSize size v field).under path :=
  Limits.check_under ..

theorem Chain.check_under (chain : Chain) (w : World) (receiver : Receiver) (v : Value)
    (path field : String) :
    chain.check w receiver v (joinPath path field) =
      (chain.check w receiver v field).under path := by
  rw [Chain.check, Chain.check, Outcome.under_forEach]
  simp only [Outcome.under_under]

theorem ScalarCheck.runAt_under (check : ScalarCheck) (v : Value) (path field : String) :
    check.runAt v (joinPath path field) = (check.runAt v field).under path := by
  cases check with
  | integer range => rw [runAt, runAt, Limits.check_under]
  | float range => simp only [runAt, ScalarCheck.check, Limits.check_under]
  | string length => simp only [runAt, ScalarCheck.check, Limits.check_under]
  | byte => rfl
  | bool => rfl

namespace Plan

variable {w : World}

/-! ## Code below a path -/

mutual

/-- The names of all fields in a plan. -/
def fieldNames : Plan → List String
  | .optional _ inner => inner.fieldNames
  | .array _ item => item.fieldNames
  | .map _ k v => k.fieldNames ++ v.fieldNames
  | .inline fields _ => namesOfFields fields
  | .wrapper _ _ inner _ => inner.fieldNames
  | _ => []

/-- The names of fields, and of the fields in them. -/
def namesOfFields : List (Field Plan) → List String
  | [] => []
  | ⟨_, name, plan⟩ :: rest => name :: (plan.fieldNames ++ namesOfFields rest)

end

/-- No field has a name that looks like the path of an element. -/
def PlainNames (p : Plan) : Prop := ∀ name ∈ p.fieldNames, name.toList.head? ≠ some '['

theorem mem_namesOfFields {f : Field Plan} {fields : List (Field Plan)} (hf : f ∈ fields) :
    f.name ∈ namesOfFields fields ∧ f.node.fieldNames ⊆ namesOfFields fields := by
  induction fields with
  | nil => cases hf
  | cons g fields ih =>
    rw [namesOfFields]
    rcases List.mem_cons.mp hf with rfl | hf
    · exact ⟨List.mem_cons_self, fun n hn => List.mem_cons_of_mem _ (List.mem_append_left _ hn)⟩
    · obtain ⟨hname, hsub⟩ := ih hf
      refine ⟨List.mem_cons_of_mem _ (List.mem_append_right _ hname), fun n hn => ?_⟩
      exact List.mem_cons_of_mem _ (List.mem_append_right _ (hsub hn))

/-- Code at a path below another one does what it does at the path itself, below the other one. -/
theorem runAt_under {p : Plan} (hp : p.PlainNames) (v : Value) (path field : String) :
    p.runAt w v (joinPath path field) = (p.runAt w v field).under path := by
  have helem : ∀ suffix : String, suffix.toList.head? = some '[' → ∀ field,
      joinPath path field ++ suffix = joinPath path (field ++ suffix) := by
    intro suffix h field
    rw [Failure.append_eq_joinPath h, Failure.append_eq_joinPath h, Failure.joinPath_assoc]
  induction p using Plan.induct generalizing v field with
  | scalar check chain =>
    rw [runAt_scalar, runAt_scalar, Outcome.under_andThen, ScalarCheck.runAt_under,
      Chain.check_under]
  | optional nullable inner ih =>
    rw [runAt_optional, runAt_optional]
    cases v.inside? with
    | some u => exact ih hp u field
    | none => simp only [Outcome.under_failIf]; rfl
  | array size item ih =>
    rw [runAt_array, runAt_array, Outcome.under_andThen, checkSize_under, Outcome.under_forEach,
      helem "[]" rfl]
    simp only [ih hp]
  | map size k val ihk ihv =>
    have hk : k.PlainNames := fun n hn => hp n (List.mem_append_left _ hn)
    have hv : val.PlainNames := fun n hn => hp n (List.mem_append_right _ hn)
    rw [runAt_map, runAt_map, Outcome.under_andThen, checkSize_under, Outcome.under_forEach,
      helem "[key]" rfl, helem "[value]" rfl]
    simp only [ihk hk, ihv hv, Outcome.under_andThen]
  | inline fields chain ih =>
    rw [runAt_inline, runAt_inline, Outcome.under_andThen, Chain.check_under, fieldsRunAt,
      fieldsRunAt, Outcome.under_forEach]
    congr 1
    refine Outcome.forEach_congr fun f hf => ?_
    obtain ⟨hname, hsub⟩ := mem_namesOfFields hf
    have hplain : f.name.toList.head? ≠ some '[' := hp _ hname
    rw [Failure.join_eq_joinPath hplain, Failure.join_eq_joinPath hplain, Failure.joinPath_assoc]
    exact ih f hf (fun n hn => hp n (hsub hn)) _ _
  | delegated chain =>
    rw [runAt_delegated, runAt_delegated, Outcome.under_andThen, Outcome.under_under,
      Chain.check_under]
  | wrapper ty mode inner chain ih =>
    rw [runAt_wrapper, runAt_wrapper, Outcome.under_andThen, ih hp, Chain.check_under]
  | interface indirect chain =>
    rw [runAt_interface, runAt_interface, Chain.check_under]
  | skip => rw [runAt_skip, runAt_skip]; rfl

end Plan

end FieldRules
