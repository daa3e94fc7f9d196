import FieldRules.Run.Execute

/-!
# Programs

A program is a set of structs with the plans of their validation, and a set of custom validators.
`Program.validate` runs the code that is generated for a struct on a value of it, and on the way the
code for the structs inside it.
-/

namespace FieldRules

/-- The structs and custom validators of a program. -/
structure Program where
  plans : List (String × Plan)
  validators : List (String × (Value → Option Failure))

namespace Program

/-- A call of the custom validator with the given name. -/
def call (p : Program) (name : String) (v : Value) : Outcome :=
  match p.validators.lookup name with
  | some f => ⟨[name], f v⟩
  | none => .pass

/-- The last name of a path. -/
def lastName (path : Path) : String :=
  (path.segments.getLast?.map (·.name.name)).getD ""

/-- The code of the program, where values check themselves by `validate`. A method belongs to the
type of the value that it is called on. -/
def world (p : Program) (validate : Value → Outcome) : World :=
  ⟨fun name => p.call name.name, fun _ name => p.call name.name, fun path => p.call (lastName path),
    validate⟩

/-- The validation of a value in which structs are nested less than `n` deep. A pointer is checked
as the value that it points to. -/
def validateWithin (p : Program) : Nat → Value → Outcome
  | 0, _ => .pass
  | n + 1, v =>
    match v.target with
    | .record name fields =>
      match p.plans.lookup name with
      | some plan => plan.run (p.world (p.validateWithin n)) (.record name fields)
      | none => .pass
    | _ => .pass

/-- The validation of a value. -/
def validate (p : Program) (v : Value) : Outcome := p.validateWithin (v.depth + 1) v

end Program

end FieldRules
