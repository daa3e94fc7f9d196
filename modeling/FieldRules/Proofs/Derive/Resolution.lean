import FieldRules.Derive.Resolve

/-!
# What resolution looks at

A type stands in other types, and `Ty.resolve` wants different things of it there: its
configuration, that of a reference to it, only whether it is `str` or a trait object, or nothing at
all. A way into a type is a list of `Frame`s, outermost first, and `Ty.aspect` is what is wanted of
the type behind them. Replacing this type by another one leaves the configuration of the whole as it
is just if the two are the same in that aspect (`Ty.resolve_fill_eq_iff`).

So parentheses around a type, and the names in front of the last one of a path, make no difference
except where a type is only compared with `str` or with a trait object (`Ty.resolve_paren_iff`,
`Ty.resolve_lastName_iff`): there it counts how it is written.
-/

namespace FieldRules

/-! ## Places in types -/

/-- A place for the arguments behind a name of a path. -/
structure NamePlace where
  rooted : Bool
  front : List Segment
  name : Ident
  back : List Segment

/-- The path with the arguments at the place. -/
def NamePlace.fill (n : NamePlace) (arguments : Arguments) : Ty :=
  .path n.rooted (n.front ++ .mk n.name arguments :: n.back)

/-- A place among the arguments between angle brackets behind a name of a path. -/
structure ArgumentPlace extends NamePlace where
  turbofish : Bool
  before : List Argument
  after : List Argument
  trailing : Bool

/-- The place for the only argument of a bare name. -/
def ArgumentPlace.alone (name : String) : ArgumentPlace where
  rooted := false
  front := []
  name := .ofName name
  back := []
  turbofish := false
  before := []
  after := []
  trailing := false

/-- The arguments with another one at the place. -/
def ArgumentPlace.arguments (a : ArgumentPlace) (x : Argument) : Arguments :=
  .angled a.turbofish (a.before ++ x :: a.after) a.trailing

/-- A form of types that keeps only the tokens of the types inside it. -/
inductive TokenForm where
  | qualified
  | length (element : Ty)
  | traitObject (single : Bool)
  | implTrait
  | other

/-- The type of the form with the given tokens. -/
def TokenForm.ofTokens : TokenForm → List Token → Ty
  | qualified, ts => .qualified ts
  | length element, ts => .array element ts
  | traitObject single, ts => .traitObject single ts
  | implTrait, ts => .implTrait ts
  | other, ts => .other ts

/-- One step into a type: what stands around a place for another type. -/
inductive Frame where
  | target (lifetime : Option String) (mutable : Bool)
  | slice
  | array (length : List Token)
  | paren
  /-- An argument of a name in a path. -/
  | argument (place : ArgumentPlace)
  /-- A place inside a constant or constraint that is such an argument; `write` gives its tokens. -/
  | insideArgument (place : ArgumentPlace) (write : Ty → List Token)
  /-- A place inside the parentheses behind a name in a path; `write` gives their tokens. -/
  | insideParentheses (place : NamePlace) (write : Ty → List Token)
  /-- A place inside a type of which only the tokens are kept; `write` gives them. -/
  | insideTokens (form : TokenForm) (write : Ty → List Token)

/-- The type with another type at the place. -/
def Frame.fill : Frame → Ty → Ty
  | target lifetime mutable, t => .reference lifetime mutable t
  | slice, t => .slice t
  | array length, t => .array t length
  | paren, t => .paren t
  | argument place, t => place.fill (place.arguments (.type t))
  | insideArgument place write, t => place.fill (place.arguments (.other (write t)))
  | insideParentheses place write, t => place.fill (.parenthesized (write t))
  | insideTokens form write, t => form.ofTokens (write t)

namespace Ty

/-- The type with another type behind the frames, the outermost of which comes first. -/
def fill (frames : List Frame) (t : Ty) : Ty := frames.foldr Frame.fill t

end Ty

/-! ## Aspects of types -/

/-- What resolution wants to know of a type. -/
inductive Aspect where
  | nothing
  | configuration
  /-- The configuration of a reference to it. -/
  | target
  /-- Whether it is written `str`. -/
  | isStr
  /-- Whether it is written as a trait object. -/
  | isTraitObject
deriving DecidableEq, Repr

/-- The types are the same in an aspect. -/
def Aspect.Same (t u : Ty) : Aspect → Prop
  | nothing => True
  | configuration => t.resolve = u.resolve
  | target => t.resolveTarget = u.resolveTarget
  | isStr => t.isStr = u.isStr
  | isTraitObject => t.isTraitObject = u.isTraitObject

theorem Aspect.same_of_eq_nothing {a : Aspect} {t u : Ty} (h : a = .nothing) : a.Same t u :=
  h ▸ trivial

/-- Whether the name is one of the given ones. A raw name never is. -/
def Ident.isAmong (name : Ident) (names : List String) : Bool :=
  !name.raw && names.contains name.name

/-- Whether the argument is a type. -/
def Argument.isType : Argument → Bool
  | type _ => true
  | _ => false

/-- What is wanted of a type that is an argument of the name, beside other types before and after
it. -/
def Ident.aspect (name : Ident) (before after : Nat) : Aspect :=
  let alone (a : Aspect) := if before + after = 0 then a else .nothing
  if name.isAmong ["Option"] then alone .configuration
  else if name.isAmong ["Cow"] then alone .isStr
  else if name.isAmong pointerNames then alone .isTraitObject
  else if name.isAmong sequenceNames then if before = 0 then .configuration else .nothing
  else if name.isAmong mapNames then
    if before < 2 ∧ 0 < before + after then .configuration else .nothing
  else .nothing

/-- What is wanted of a type at the place, if the configuration of the path is wanted. Only the last
name of a path counts. -/
def ArgumentPlace.aspect (a : ArgumentPlace) : Aspect :=
  if a.back.isEmpty then
    a.name.aspect (a.before.countP Argument.isType) (a.after.countP Argument.isType)
  else .nothing

/-- What is wanted of the type at the place, by what is wanted of the type around it. -/
def Frame.aspect : Frame → Aspect → Aspect
  | target .., .configuration => .target
  | slice, .configuration => .configuration
  | slice, .target => .configuration
  | array _, .configuration => .configuration
  | array _, .target => .configuration
  | paren, .configuration => .configuration
  | paren, .target => .target
  | argument place, .configuration => place.aspect
  | _, _ => .nothing

/-- What is wanted of the type behind the frames, if the configuration of the whole is wanted. -/
def Ty.aspect (frames : List Frame) : Aspect :=
  frames.foldl (fun a f => f.aspect a) .configuration

example : Ty.aspect [.argument (.alone "Vec"), .paren, .target none false] = .target := by decide

/-! ## Arguments -/

theorem Ident.exists_of_isAmong {name : Ident} {names : List String}
    (h : name.isAmong names = true) : ∃ s ∈ names, name = .ofName s := by
  obtain ⟨raw, s⟩ := name
  simp only [isAmong, Bool.and_eq_true, Bool.not_eq_true', List.contains_iff_mem] at h
  obtain ⟨rfl, hs⟩ := h
  exact ⟨s, hs, rfl⟩

namespace Ty

section Names

variable {name : Ident}

/-- The configuration by the only argument, if there is just one. -/
def byOnly (f : Ty × Draft → Draft) : List (Ty × Draft) → Draft
  | [x] => f x
  | _ => .delegated none

theorem resolveName_option (h : name.isAmong ["Option"] = true) (args : List (Ty × Draft)) :
    resolveName name args = byOnly (.optional false false ·.2) args := by
  obtain ⟨s, hs, rfl⟩ := Ident.exists_of_isAmong h
  obtain rfl := List.mem_singleton.mp hs
  rcases args with _ | ⟨_, _ | _⟩ <;> rfl

theorem resolveName_cow (h : name.isAmong ["Cow"] = true) (args : List (Ty × Draft)) :
    resolveName name args =
      byOnly (fun x => if x.1.isStr then .leaf .string else .delegated none) args := by
  obtain ⟨s, hs, rfl⟩ := Ident.exists_of_isAmong h
  obtain rfl := List.mem_singleton.mp hs
  rcases args with _ | ⟨_, _ | _⟩ <;> rfl

theorem resolveName_pointer (h : name.isAmong pointerNames = true) (args : List (Ty × Draft)) :
    resolveName name args =
      byOnly (fun x => if x.1.isTraitObject then .interface true none else .delegated none)
        args := by
  obtain ⟨s, hs, rfl⟩ := Ident.exists_of_isAmong h
  simp only [pointerNames, List.mem_cons, List.not_mem_nil, or_false] at hs
  rcases hs with rfl | rfl | rfl <;>
    rcases args with _ | ⟨_, _ | _⟩ <;> rfl

theorem resolveName_sequence (h : name.isAmong sequenceNames = true) (args : List (Ty × Draft)) :
    resolveName name args = match args with
      | (_, d) :: _ => .array .none d
      | [] => .delegated none := by
  obtain ⟨s, hs, rfl⟩ := Ident.exists_of_isAmong h
  simp only [sequenceNames, List.mem_cons, List.not_mem_nil, or_false] at hs
  rcases hs with rfl | rfl | rfl | rfl | rfl | rfl | rfl <;>
    rcases args with _ | ⟨_, _ | _⟩ <;> rfl

theorem resolveName_map (h : name.isAmong mapNames = true) (args : List (Ty × Draft)) :
    resolveName name args = match args with
      | (_, d) :: (_, e) :: _ => .map .none d e
      | _ => .delegated none := by
  obtain ⟨s, hs, rfl⟩ := Ident.exists_of_isAmong h
  simp only [mapNames, List.mem_cons, List.not_mem_nil, or_false] at hs
  rcases hs with rfl | rfl | rfl <;>
    rcases args with _ | ⟨_, _ | _⟩ <;> rfl

/-- The arguments of other names make no difference. -/
theorem resolveName_other (hoption : name.isAmong ["Option"] = false)
    (hcow : name.isAmong ["Cow"] = false) (hpointer : name.isAmong pointerNames = false)
    (hsequence : name.isAmong sequenceNames = false) (hmap : name.isAmong mapNames = false)
    (args : List (Ty × Draft)) : resolveName name args = resolveName name [] := by
  unfold Ident.isAmong at *
  match args with
  | [] => rfl
  | [_] =>
    simp only [resolveName, hoption, hcow, hpointer, hsequence, Bool.false_and, Bool.false_eq_true,
      if_false]
  | _ :: _ :: _ => simp only [resolveName, hsequence, hmap, Bool.false_eq_true, if_false]

theorem byOnly_eq_iff {f : Ty × Draft → Draft} {a : Aspect} {t u : Ty}
    (h : f (t, t.resolve) = f (u, u.resolve) ↔ a.Same t u) (bs as : List (Ty × Draft)) :
    byOnly f (bs ++ (t, t.resolve) :: as) = byOnly f (bs ++ (u, u.resolve) :: as) ↔
      (if bs.length + as.length = 0 then a else .nothing).Same t u := by
  match bs, as with
  | [], [] => exact h
  | [], _ :: _ | [_], _ | _ :: _ :: _, _ => simp [byOnly, Aspect.Same]

/-- One argument among others can be replaced just if the new one is the same in the aspect that is
wanted. -/
theorem resolveName_eq_iff (bs as : List (Ty × Draft)) (t u : Ty) :
    resolveName name (bs ++ (t, t.resolve) :: as) = resolveName name (bs ++ (u, u.resolve) :: as) ↔
      (name.aspect bs.length as.length).Same t u := by
  unfold Ident.aspect
  by_cases hoption : name.isAmong ["Option"] = true
  · rw [if_pos hoption, resolveName_option hoption, resolveName_option hoption]
    exact byOnly_eq_iff (by simp [Aspect.Same]) bs as
  by_cases hcow : name.isAmong ["Cow"] = true
  · rw [if_neg hoption, if_pos hcow, resolveName_cow hcow, resolveName_cow hcow]
    refine byOnly_eq_iff ?_ bs as
    cases ht : t.isStr <;> cases hu : u.isStr <;> simp [Aspect.Same, Draft.leaf, ht, hu]
  by_cases hpointer : name.isAmong pointerNames = true
  · rw [if_neg hoption, if_neg hcow, if_pos hpointer, resolveName_pointer hpointer,
      resolveName_pointer hpointer]
    refine byOnly_eq_iff ?_ bs as
    cases ht : t.isTraitObject <;> cases hu : u.isTraitObject <;> simp [Aspect.Same, ht, hu]
  by_cases hsequence : name.isAmong sequenceNames = true
  · rw [if_neg hoption, if_neg hcow, if_neg hpointer, if_pos hsequence,
      resolveName_sequence hsequence, resolveName_sequence hsequence]
    match bs with
    | [] | _ :: _ => simp [Aspect.Same]
  by_cases hmap : name.isAmong mapNames = true
  · rw [if_neg hoption, if_neg hcow, if_neg hpointer, if_neg hsequence, if_pos hmap,
      resolveName_map hmap, resolveName_map hmap]
    match bs, as with
    | [], [] | [], _ :: _ => simp [Aspect.Same]
    | [_], as => simp [Aspect.Same, Nat.add_comm 1 as.length]
    | _ :: _ :: bs, _ =>
      have hlength : ¬ bs.length + 1 + 1 < 2 := by omega
      simp [Aspect.Same, hlength]
  · rw [if_neg hoption, if_neg hcow, if_neg hpointer, if_neg hsequence, if_neg hmap]
    rw [Bool.not_eq_true] at hoption hcow hpointer hsequence hmap
    rw [resolveName_other hoption hcow hpointer hsequence hmap,
      resolveName_other hoption hcow hpointer hsequence hmap (bs ++ (u, u.resolve) :: as)]
    exact iff_of_true rfl trivial

end Names

theorem length_resolveItems (xs : List Argument) :
    (resolveItems xs).length = xs.countP Argument.isType := by
  induction xs with
  | nil => rfl
  | cons x xs ih => cases x <;> simp [resolveItems, List.countP_cons, Argument.isType, ih]

theorem resolveItems_append (xs ys : List Argument) :
    resolveItems (xs ++ ys) = resolveItems xs ++ resolveItems ys := by
  induction xs with
  | nil => rfl
  | cons x xs ih => cases x <;> simp [resolveItems, ih]

end Ty

/-! ## Paths -/

namespace Ty

/-- Only the last name of a path counts. -/
theorem resolveSegments_append (front : List Segment) (s : Segment) (back : List Segment) :
    resolveSegments (front ++ s :: back) = resolveSegments (s :: back) := by
  induction front with
  | nil => rfl
  | cons r front ih =>
    cases front with
    | nil => rw [List.cons_append, List.nil_append, resolveSegments]
    | cons q front =>
      rw [List.cons_append, List.cons_append, resolveSegments, ← List.cons_append, ih]

theorem resolve_path_append (rooted : Bool) (front : List Segment) (s : Segment)
    (back : List Segment) :
    (path rooted (front ++ s :: back)).resolve = resolveSegments (s :: back) := by
  rw [resolve, resolveSegments_append]

/-- Only a name that stands alone is `str`. -/
theorem isStr_path_append (rooted : Bool) (front : List Segment) (s : Segment) :
    isStr (path rooted (front ++ [s])) = true ↔
      (rooted = false ∧ front = []) ∧ isStr (path false [s]) = true := by
  cases rooted with
  | true => cases front <;> exact iff_of_false nofun nofun
  | false =>
    match front with
    | [] => simp
    | [.mk _ .none] | [.mk _ (.angled ..)] | [.mk _ (.parenthesized _)] =>
      exact iff_of_false nofun nofun
    | .mk _ .none :: _ :: _ | .mk _ (.angled ..) :: _ :: _ | .mk _ (.parenthesized _) :: _ :: _ =>
      exact iff_of_false nofun nofun

theorem resolveTarget_path_eq_iff {rooted rooted' : Bool} {ss ss' : List Segment} :
    (path rooted ss).resolveTarget = (path rooted' ss').resolveTarget ↔
      isStr (path rooted ss) = isStr (path rooted' ss') := by
  rw [resolveTarget, resolveTarget]
  cases isStr (path rooted ss) <;> cases isStr (path rooted' ss') <;> simp [Draft.leaf]

end Ty

namespace NamePlace

variable (n : NamePlace) {arguments : Arguments}

/-- A path with arguments is not `str`. -/
theorem isStr_fill (h : arguments ≠ .none) : (n.fill arguments).isStr = false := by
  unfold fill
  cases n.rooted with
  | true => rfl
  | false =>
    match n.front, arguments with
    | [], .none => exact absurd rfl h
    | [], .angled .. | [], .parenthesized _ => rfl
    | [.mk _ .none], _ | .mk _ .none :: _ :: _, _ => rfl
    | .mk _ (.angled ..) :: _, _ | .mk _ (.parenthesized _) :: _, _ => rfl

theorem resolveTarget_fill (h : arguments ≠ .none) :
    (n.fill arguments).resolveTarget = .delegated none := by
  have hstr := n.isStr_fill h
  unfold fill at hstr ⊢
  rw [Ty.resolveTarget, hstr]
  rfl

theorem resolve_fill (arguments : Arguments) : (n.fill arguments).resolve =
    if n.back.isEmpty then Ty.resolveName n.name (Ty.resolveArguments arguments)
    else Ty.resolveSegments n.back := by
  unfold fill
  rw [Ty.resolve_path_append]
  cases n.back <;> rfl

/-- A path with other arguments is the same in an aspect just if that is the configuration, its last
name is the one with the arguments, and that name makes a difference between them. -/
theorem same_fill_iff {arguments' : Arguments} (h : arguments ≠ .none) (h' : arguments' ≠ .none)
    (a : Aspect) : a.Same (n.fill arguments) (n.fill arguments') ↔
      (a = .configuration → n.back = [] →
        Ty.resolveName n.name (Ty.resolveArguments arguments) =
          Ty.resolveName n.name (Ty.resolveArguments arguments')) := by
  cases a with
  | nothing => simp [Aspect.Same]
  | configuration =>
    rw [Aspect.Same, resolve_fill, resolve_fill]
    cases n.back <;> simp
  | target => simp [Aspect.Same, n.resolveTarget_fill h, n.resolveTarget_fill h']
  | isStr => simp [Aspect.Same, n.isStr_fill h, n.isStr_fill h']
  | isTraitObject => simp [Aspect.Same, fill, Ty.isTraitObject]

end NamePlace

namespace ArgumentPlace

variable (p : ArgumentPlace)

theorem resolveArguments_arguments (x : Argument) : Ty.resolveArguments (p.arguments x) =
    Ty.resolveItems p.before ++ (Ty.resolveItems [x] ++ Ty.resolveItems p.after) := by
  rw [arguments, Ty.resolveArguments, Ty.resolveItems_append, ← Ty.resolveItems_append [x]]
  rfl

/-- Of a type among the arguments, the name of the path says what is wanted. -/
theorem same_type_iff (a : Aspect) (t u : Ty) :
    a.Same (p.fill (p.arguments (.type t))) (p.fill (p.arguments (.type u))) ↔
      (a = .configuration → p.aspect.Same t u) := by
  rw [p.same_fill_iff (by simp [arguments]) (by simp [arguments])]
  refine imp_congr_right fun _ => ?_
  have h := @Ty.resolveName_eq_iff p.name (Ty.resolveItems p.before)
    (Ty.resolveItems p.after) t u
  rw [Ty.length_resolveItems, Ty.length_resolveItems] at h
  rw [resolveArguments_arguments, resolveArguments_arguments, aspect]
  simp only [Ty.resolveItems, List.singleton_append, h]
  cases p.back <;> simp [Aspect.Same]

/-- An argument that is not a type makes no difference. -/
theorem same_other (a : Aspect) (ts us : List Token) :
    a.Same (p.fill (p.arguments (.other ts))) (p.fill (p.arguments (.other us))) := by
  rw [p.same_fill_iff (by simp [arguments]) (by simp [arguments])]
  intro _ _
  rw [resolveArguments_arguments, resolveArguments_arguments]
  rfl

end ArgumentPlace

/-! ## Types in types -/

/-- The tokens that a form keeps make no difference. -/
theorem TokenForm.same_ofTokens (form : TokenForm) (a : Aspect) (ts us : List Token) :
    a.Same (form.ofTokens ts) (form.ofTokens us) := by
  cases form <;> cases a <;> trivial

/-- One step into a type. -/
theorem Frame.same_fill_iff (f : Frame) (a : Aspect) (t u : Ty) :
    a.Same (f.fill t) (f.fill u) ↔ (f.aspect a).Same t u := by
  match f with
  | argument place =>
    refine (place.same_type_iff a t u).trans ?_
    cases a <;> simp [Frame.aspect, Aspect.Same]
  | insideArgument place write =>
    exact iff_of_true (place.same_other a _ _) (Aspect.same_of_eq_nothing (by cases a <;> rfl))
  | insideParentheses place write =>
    refine iff_of_true ?_ (Aspect.same_of_eq_nothing (by cases a <;> rfl))
    exact (place.same_fill_iff (by simp) (by simp) a).mpr fun _ _ => rfl
  | insideTokens form write =>
    exact iff_of_true (form.same_ofTokens a _ _) (Aspect.same_of_eq_nothing (by cases a <;> rfl))
  | target .. | slice | array _ | paren =>
    cases a <;> simp [Frame.fill, Frame.aspect, Aspect.Same, Ty.resolve, Ty.resolveTarget, Ty.isStr,
      Ty.isTraitObject]

namespace Ty

/-- A type behind frames can be replaced by another one just if that is the same in the aspect that
is wanted of it there. -/
theorem resolve_fill_eq_iff (frames : List Frame) (t u : Ty) :
    (fill frames t).resolve = (fill frames u).resolve ↔ (aspect frames).Same t u := by
  suffices h : ∀ a : Aspect, a.Same (fill frames t) (fill frames u) ↔
      (frames.foldl (fun a f => f.aspect a) a).Same t u from h .configuration
  induction frames with
  | nil => exact fun a => Iff.rfl
  | cons f frames ih => exact fun a => (f.same_fill_iff a _ _).trans (ih (f.aspect a))

/-- Parentheses around a type make a difference where it is compared with `str` or with a trait
object, and it is one; nowhere else. -/
theorem resolve_paren_iff (frames : List Frame) (t : Ty) :
    (fill frames (.paren t)).resolve = (fill frames t).resolve ↔
      ¬ (aspect frames = .isStr ∧ t.isStr = true ∨
        aspect frames = .isTraitObject ∧ t.isTraitObject = true) := by
  rw [resolve_fill_eq_iff]
  cases aspect frames with
  | nothing => simp [Aspect.Same]
  | configuration => simp [Aspect.Same, resolve]
  | target => simp [Aspect.Same, resolveTarget]
  | isStr =>
    have hparen : (paren t).isStr = false := rfl
    rw [Aspect.Same, hparen]
    cases t.isStr <;> simp
  | isTraitObject =>
    have hparen : (paren t).isTraitObject = false := rfl
    rw [Aspect.Same, hparen]
    cases t.isTraitObject <;> simp

/-- The type written `str`. -/
def bareStr : Ty := .path false [.mk (.ofName "str") .none]

/-- The type written `dyn Shape`. -/
def dynShape : Ty := .traitObject true [.ident "dyn", .ident "Shape"]

/-- The parentheses count in `Cow<(str)>` and in `Box<(dyn Shape)>`. -/
theorem resolve_paren_ne :
    (fill [.argument (.alone "Cow")] (.paren bareStr)).resolve ≠
        (fill [.argument (.alone "Cow")] bareStr).resolve ∧
      (fill [.argument (.alone "Box")] (.paren dynShape)).resolve ≠
        (fill [.argument (.alone "Box")] dynShape).resolve :=
  ⟨nofun, nofun⟩

/-- What stands in front of the last name of a path makes a difference where the path is the target
of a reference or is compared with `str`, and the last name is `str`, if it stands alone in one of
the two paths only; nowhere else. -/
theorem resolve_lastName_iff (frames : List Frame) (s : Segment) (rooted rooted' : Bool)
    (front front' : List Segment) :
    (fill frames (.path rooted (front ++ [s]))).resolve =
        (fill frames (.path rooted' (front' ++ [s]))).resolve ↔
      ((aspect frames = .target ∨ aspect frames = .isStr) → isStr (.path false [s]) = true →
        ((rooted = false ∧ front = []) ↔ (rooted' = false ∧ front' = []))) := by
  have hstr : isStr (.path rooted (front ++ [s])) = isStr (.path rooted' (front' ++ [s])) ↔
      (isStr (.path false [s]) = true →
        ((rooted = false ∧ front = []) ↔ (rooted' = false ∧ front' = []))) := by
    rw [Bool.eq_iff_iff, isStr_path_append, isStr_path_append, and_congr_left_iff]
  rw [resolve_fill_eq_iff]
  cases aspect frames with
  | nothing => simp [Aspect.Same]
  | configuration => simp [Aspect.Same, resolve_path_append]
  | target => simp [Aspect.Same, resolveTarget_path_eq_iff, hstr]
  | isStr => simp [Aspect.Same, hstr]
  | isTraitObject => simp [Aspect.Same, isTraitObject]

/-- The type written `core::primitive::str`. -/
def coreStr : Ty :=
  .path false ([.mk (.ofName "core") .none, .mk (.ofName "primitive") .none] ++
    [.mk (.ofName "str") .none])

/-- The names in front of `str` count in `&core::primitive::str` and in
`Cow<core::primitive::str>`. -/
theorem resolve_lastName_ne :
    (fill [.target none false] coreStr).resolve ≠ (fill [.target none false] bareStr).resolve ∧
      (fill [.argument (.alone "Cow")] coreStr).resolve ≠
        (fill [.argument (.alone "Cow")] bareStr).resolve :=
  ⟨nofun, nofun⟩

end Ty

end FieldRules
