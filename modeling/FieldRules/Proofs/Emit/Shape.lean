import FieldRules.Emit.Checks

/-!
# The shape of emitted code

One equation for each constructor of a plan, with the parts of the emission named by projections:
the names that are minted, the code of the parts and the scope that each of them starts from. Proofs
about emitted code start from these.
-/

namespace FieldRules

/-- A minted name, and the value that it is bound to, at the path `c.field ++ suffix`. -/
def Context.minted (c : Context) (stem suffix : String) (names : Names) : Context :=
  c.bound (names.mint stem).1 (c.field ++ suffix)

/-- The scope after a name with the given stem is minted. -/
def Scope.minted (s : Scope) (stem : String) : Scope :=
  { s with names := (s.names.mint stem).2 }

/-- A statement around code, unless the code is empty. -/
def unlessEmpty (wrap : List Statement → Statement) (body : List Statement) : List Statement :=
  if body.isEmpty then [] else [wrap body]

theorem code_append (ss us : List Statement) : code (ss ++ us) = code ss ++ code us := by
  induction ss with
  | nil => rfl
  | cons s ss ih => rw [List.cons_append, code, code, ih, List.append_assoc]

theorem ScalarCheck.emit_integer (range : Limits (Bound Int)) (c : Context) (s : Scope) :
    (integer range).emit c s =
      let guards := emitLimits range .wide (.belowMinimum ·.text) (.aboveMaximum ·.text) c.field s
      (unlessEmpty (.widen c.reach) guards.1, guards.2) := rfl

theorem ScalarCheck.emit_string (length : Limits (Bound Nat)) (c : Context) (s : Scope) :
    (string length).emit c s =
      let guards := emitLimits length .length (.tooShort ·.value) (.tooLong ·.value) c.field s
      (unlessEmpty (.measure c.reach) guards.1, guards.2) := rfl

namespace Plan

theorem emit_scalar (check : ScalarCheck) (chain : Chain) (c : Context) (s : Scope) :
    (scalar check chain).emit c s =
      let own := check.emit c s
      let calls := chain.emit c .value own.2
      (own.1 ++ calls.1, calls.2) := rfl

/-- The code for an optional value whose inside has the code `body`. -/
def presence (nullable : Bool) (name : String) (c : Context) (body : List Statement) :
    List Statement :=
  if nullable then unlessEmpty (.ifPresent name c.reach) body
  else if body.isEmpty then [.guard (.absent c.reach) ⟨c.field, .missing⟩]
  else [.matchPresent name c.reach body ⟨c.field, .missing⟩]

theorem emit_optional (nullable : Bool) (inner : Plan) (c : Context) (s : Scope) :
    (optional nullable inner).emit c s =
      let body := inner.emit (c.minted presentStem "" s.names) (s.minted presentStem)
      (presence nullable (s.names.mint presentStem).1 c body.1,
        if nullable then body.2 else body.2.requireFailure) := by
  cases nullable <;> rfl

theorem emit_array (size : Limits (Bound Nat)) (item : Plan) (c : Context) (s : Scope) :
    (array size item).emit c s =
      let guards := emitSize size c s
      let body := item.emit (c.minted itemStem "[]" guards.2.names) (guards.2.minted itemStem)
      (guards.1 ++ unlessEmpty (.forEach (guards.2.names.mint itemStem).1 c.reach) body.1,
        body.2) := rfl

/-- The name for a part of an entry whose code is `body`, which has none without code. -/
def partName (name : String) (body : List Statement) : Option String :=
  if body.isEmpty then none else some name

theorem emit_map (size : Limits (Bound Nat)) (k v : Plan) (c : Context) (s : Scope) :
    (map size k v).emit c s =
      let guards := emitSize size c s
      let s₁ := guards.2.minted keyStem
      let s₂ := s₁.minted valueStem
      let keys := k.emit (c.minted keyStem "[key]" guards.2.names) s₂
      let values := v.emit (c.minted valueStem "[value]" s₁.names) keys.2
      (guards.1 ++ unlessEmpty
        (.forEntries (partName (guards.2.names.mint keyStem).1 keys.1)
          (partName (s₁.names.mint valueStem).1 values.1) c.reach) (keys.1 ++ values.1),
        values.2) := by
  have isEmpty_append : ∀ a b : List Statement, (a ++ b).isEmpty = (a.isEmpty && b.isEmpty) := by
    intro a b
    cases a <;> rfl
  simp only [unlessEmpty, isEmpty_append]
  rfl

theorem emit_inline (fields : List (Field Plan)) (chain : Chain) (c : Context) (s : Scope) :
    (inline fields chain).emit c s =
      let checks := emitFields fields c s
      let calls := chain.emit c .value checks.2
      (checks.1 ++ calls.1, calls.2) := rfl

theorem emitFields_cons (f : Field Plan) (fields : List (Field Plan)) (c : Context) (s : Scope) :
    emitFields (f :: fields) c s =
      let first := f.node.emit (c.member f.member f.name) s
      let others := emitFields fields c first.2
      (first.1 ++ others.1, others.2) := rfl

theorem emit_delegated (chain : Chain) (c : Context) (s : Scope) :
    (delegated chain).emit c s =
      let calls := chain.emit c .value (s.require .validate)
      (.delegate c.reach c.field :: calls.1, calls.2) := rfl

theorem emit_wrapper (ty : Ty) (mode : WrapperMode) (inner : Plan) (chain : Chain) (c : Context)
    (s : Scope) :
    (wrapper ty mode inner chain).emit c s =
      let checks := inner.emit (wrapped c mode) s
      let calls := chain.emit c (.type ty) checks.2
      (checks.1 ++ calls.1, calls.2) := rfl

theorem emit_interface (indirect : Bool) (chain : Chain) (c : Context) (s : Scope) :
    (interface indirect chain).emit c s =
      chain.emit (if indirect then c.pointee else c) .value s := rfl

end Plan

end FieldRules
