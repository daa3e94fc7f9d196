import FieldRules.Config.SetTag
import FieldRules.Derive.Annotations
import FieldRules.Derive.Resolve
import FieldRules.Emit.Routine

/-!
# Expanding structs

`Item.expand` derives the validation of a struct: the types of its fields are resolved, the
annotations of the fields and of the struct are applied, and the plan of the whole struct becomes an
implementation. A tuple struct with one field is a wrapper of that field.

Fields do not depend on each other, so all complaints about them are reported together, after those
about the struct's own attributes (`Item.prepare`). Only if there are none are the annotations of
the struct applied, and only then is the plan made.
-/

namespace FieldRules

/-- A field whose annotations are applied. -/
structure Prepared where
  field : Field Draft
  /-- Where complaints about the field's plan point: its first annotation or its type. -/
  span : Span

/-- A result, and the nodes that have seen a tag on the way to it. -/
structure Traced (α : Type) where
  seen : List Sighting
  result : α

/-- A draft with annotations applied, up to the first that cannot be. -/
def Draft.annotateAll (d : Draft) :
    List AnnotationText → Traced (Except (Span × AnnotationError) Draft)
  | [] => ⟨[], .ok d⟩
  | a :: as =>
    match d.annotate a.text with
    | (_, seen, some e) => ⟨seen, .error (a.span, e)⟩
    | (d, seen, none) =>
      let rest := d.annotateAll as
      ⟨seen ++ rest.seen, rest.result⟩

/-- The member and the name in messages of the field at position `index`. -/
def FieldDecl.selector (f : FieldDecl) (index : Nat) : Member × String :=
  match f.name with
  | some name => (.named name, name.name)
  | none => (.index index, toString index)

/-- The field at position `index`, with its annotations applied. -/
def FieldDecl.prepare (f : FieldDecl) (index : Nat) :
    Traced (Except (List Diagnostic) Prepared) :=
  let (member, name) := f.selector index
  match Annotations.ofAttributes f.attributes with
  | .error ds => ⟨[], .error ds⟩
  | .ok as =>
    let span := (as.tags.head?.map (·.span)).getD f.tySpan
    match as.skips, as.tags with
    | _ :: _, a :: _ => ⟨[], .error [⟨.skipWithTags, a.span⟩]⟩
    | _ :: _, [] => ⟨[], .ok ⟨⟨member, name, .skip⟩, span⟩⟩
    | [], tags =>
      let d := f.ty.resolve.annotateAll tags
      ⟨d.seen, match d.result with
        | .error (s, e) => .error [⟨.field name e, s⟩]
        | .ok d => .ok ⟨⟨member, name, d⟩, span⟩⟩

/-- The annotations of a struct itself. -/
def Item.annotations (i : Item) : Except (List Diagnostic) (List AnnotationText) :=
  match Annotations.ofAttributes i.attributes with
  | .error ds => .error ds
  | .ok as =>
    match as.skips with
    | s :: _ => .error [⟨.skipOnStruct, s⟩]
    | [] => .ok as.tags

/-- The results of a list, or all the complaints in it. -/
def collect {α : Type} : List (Except (List Diagnostic) α) → Except (List Diagnostic) (List α)
  | [] => .ok []
  | .ok a :: rs => (collect rs).map (a :: ·)
  | .error ds :: rs =>
    match collect rs with
    | .ok _ => .error ds
    | .error es => .error (ds ++ es)

/-- The fields of a struct with their annotations applied. -/
def prepareFields (fields : List FieldDecl) : Traced (Except (List Diagnostic) (List Prepared)) :=
  let prepared := fields.mapIdx fun i f => f.prepare i
  ⟨prepared.flatMap (·.seen), collect (prepared.map (·.result))⟩

/-- The annotations of a struct and its fields with theirs applied, or all complaints about them. -/
def Item.prepare (i : Item) (fields : List FieldDecl) :
    Traced (Except (List Diagnostic) (List AnnotationText × List Prepared)) :=
  let prepared := prepareFields fields
  ⟨prepared.seen,
    match i.annotations, prepared.result with
    | .ok as, .ok ps => .ok (as, ps)
    | .ok _, .error ds => .error ds
    | .error ds, .ok _ => .error ds
    | .error ds, .error es => .error (ds ++ es)⟩

/-- Whether a struct is a wrapper of its only field. -/
def StructForm.wraps (form : StructForm) (fields : List Prepared) : Bool :=
  form = .tuple && fields.length = 1

/-- The type in code that stands for the struct itself. -/
def selfTy : Ty := .path false [.mk (.ofName "Self") .none]

/-- The configuration of a struct before its own annotations. -/
def StructForm.draft (form : StructForm) (fields : List Prepared) : Draft :=
  match form, fields with
  | .tuple, [p] => .wrapper selfTy .newtype p.field.node none
  | _, ps => .inline (ps.map (·.field)) none

/-- Where a complaint about the plan of a struct points: at the field it names, else at the wrapped
field or the struct's first annotation, else at the name of the struct. -/
def Item.inconsistencySpan (i : Item) (form : StructForm) (annotations : List AnnotationText)
    (fields : List Prepared) (e : ConfigError) : Span :=
  let fallback := if form.wraps fields then fields.head?.map (·.span)
    else annotations.head?.map (·.span)
  let found := match e with
    | .field name _ => (fields.find? fun (p : Prepared) => p.field.name = name).map Prepared.span
    | _ => fallback
  found.getD i.nameSpan

/-- The plan of a struct, or the complaints about it. -/
def Item.plan (i : Item) (form : StructForm) (fields : List FieldDecl) :
    Traced (Except (List Diagnostic) Plan) :=
  let prepared := i.prepare fields
  match prepared.result with
  | .error ds => ⟨prepared.seen, .error ds⟩
  | .ok (annotations, ps) =>
    let d := (form.draft ps).annotateAll annotations
    ⟨prepared.seen ++ d.seen,
      match d.result with
      | .error (s, e) => .error [⟨.struct e, s⟩]
      | .ok d =>
        match d.freeze with
        | .error e => .error [⟨.inconsistent e, i.inconsistencySpan form annotations ps e⟩]
        | .ok plan => .ok plan⟩

/-- What a derivation shows of its work. -/
inductive Event where
  | applyingTag (s : Sighting)
  | generatingChecks (v : Plan.Visit)
  | generatedRoutine (unit : String)

/-- The plan that an item's validation follows, or the complaints about the item. -/
def Item.validation (i : Item) : Traced (Except (List Diagnostic) Plan) :=
  match i.body with
  | .struct form fields => i.plan form fields
  | .enum => ⟨[], .error [⟨.unsupportedShape "enum", .nowhere⟩]⟩
  | .union => ⟨[], .error [⟨.unsupportedShape "union", .nowhere⟩]⟩

/-- The implementation of validation for an item, or the complaints about it; and the work that was
done. -/
def Item.expand (i : Item) : List Event × Except (List Diagnostic) (List Token) :=
  let v := i.validation
  let seen := v.seen.map .applyingTag
  match v.result with
  | .error ds => (seen, .error ds)
  | .ok plan =>
    (seen ++ (plan.visits "" 0).map .generatingChecks ++ [.generatedRoutine i.name.text],
      .ok (plan.implementation defaultRuntime i.name i.generics))

end FieldRules
