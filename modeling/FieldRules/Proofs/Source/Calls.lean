import FieldRules.Proofs.Source.Paths

/-!
# Calls as expressions

A path of an expression in front of a value in parentheses is read as an expression that calls the
path, unless it is the lone word `try` (`Reader.readsCall_of_run_pathIn`); a path with arguments
that no `::` stands in front of is never called (`Phrases.ReadsCall.inExpression`). A call of a
method, on the value or with its type in front, is an expression for every name. Values and types
are read by the given `Phrases`, of which nothing else is assumed.
-/

namespace FieldRules

open Token (op parens)

/-- The lexemes are one value, which is written as the given tokens. -/
structure Phrases.ReadsValue (p : Phrases) (inner : List Lexeme) (value : List Token) : Prop where
  nonempty : inner ≠ []
  written : Lexeme.tokens inner = value
  read : ∃ kind, (p.expression true).run inner = some (⟨kind, value⟩, [])

namespace Reader

variable {p : Phrases} {ls rest inner : List Lexeme} {value : List Token} {opening closing : Span}
  {braces : Bool}

/-! ## Arguments -/

theorem run_group (d : Delimiter) : (group d).run (.group d inner opening closing :: rest) =
    some (inner, rest) := by
  unfold group
  rw [run_get_bind]
  dsimp only
  rw [if_pos rfl]
  rfl

theorem run_within {α : Type} {r : Reader α} {a : α} (h : r.run inner = some (a, [])) :
    (within inner r).run ls = some (a, ls) := by
  unfold within
  rw [h]
  rfl

/-- One value in parentheses. -/
theorem run_arguments (h : p.ReadsValue inner value) :
    (parenthesized (commas (Reader.value p))).run
      (.group .parenthesis inner opening closing :: rest) = some (value, rest) := by
  obtain ⟨hne, -, kind, hread⟩ := h
  have hvalue : (Reader.value p).run inner = some (value, []) := by
    rw [Reader.value, StateT.run_map, hread]
    rfl
  have hempty : inner.isEmpty = false := List.isEmpty_eq_false_iff.mpr hne
  have hlist : (list "," List.isEmpty (Reader.value p)).run inner =
      some (([value], false), []) := by
    unfold list
    rw [run_get_bind, listUpTo, run_get_bind, hempty, if_neg Bool.false_ne_true]
    rw [run_bind_of_run hvalue]
    rfl
  unfold parenthesized
  rw [run_bind_of_run (run_group _)]
  refine run_within ?_
  rw [commas, StateT.run_map, hlist]
  exact congrArg (fun ts => some (ts, [])) (by rw [separated]; rfl)

/-- Nothing in parentheses. -/
theorem run_noArguments : (parenthesized (commas (Reader.value p))).run
    (.group .parenthesis [] opening closing :: rest) = some ([], rest) := by
  unfold parenthesized
  rw [run_bind_of_run (run_group _)]
  refine run_within ?_
  rw [commas, StateT.run_map]
  exact congrArg (fun ts => some (ts, [])) (by rw [separated])

/-! ## Operands -/

/-- None of the marks that can stand in front of an operand begins the lexemes. -/
structure Unmarked (ls : List Lexeme) : Prop where
  noAttribute : starts "#" ls = false
  noReference : starts "&" ls = false
  noOperator : (starts "*" ls || starts "!" ls || starts "-" ls) = false

theorem run_attributes (h : starts "#" ls = false) : (attributes p).run ls = some ([], ls) := by
  unfold attributes many
  rw [run_get_bind, manyUpTo, StateT.run_bind, StateT.run_bind, run_mark?, h]
  rfl

/-- An operand without marks in front of it. -/
theorem run_operand {atom' e : Expression} (hfront : Unmarked ls)
    (hatom : (atom p braces).run ls = some (atom', rest))
    (htrailers : (trailers p atom').run rest = some (e, [])) (he : e.kind = .other) :
    (operand p braces).run ls = some (e, []) := by
  have hbare : (bareOperand p braces).run ls = some (e, []) := by
    unfold bareOperand
    rw [run_get_bind, hfront.noReference, hfront.noOperator, if_neg Bool.false_ne_true,
      if_neg Bool.false_ne_true, run_bind_of_run hatom]
    exact htrailers
  unfold operand
  rw [run_get_bind, run_bind_of_run (run_attributes hfront.noAttribute), run_bind_of_run hbare]
  obtain ⟨kind, tokens⟩ := e
  cases he
  rfl

/-- An operand that is all there is. -/
theorem run_expression {e : Expression} (h : (operand p braces).run ls = some (e, [])) :
    (expression p braces).run ls = some (e, []) := by
  unfold expression operation
  rw [run_bind_of_run h, run_get_bind]
  change (operatorsUpTo p braces (operand p braces) .nothing 4 e).run [] = _
  rw [operatorsUpTo, run_get_bind]
  dsimp only
  rw [if_pos (by rw [show nextBinding [] = .nothing from rfl]; simp)]
  rfl

/-! ## Calls of functions -/

/-- The lexemes begin with a path to a value, and nothing else that begins with a word or mark of a
path. -/
structure StartsCallee (ls : List Lexeme) : Prop extends Unmarked ls where
  noLiteral : startsLiteral ls = false
  noAsync : (startsWord "async" ls && (startsGroup .brace (ls.drop 1) ||
    (startsWord "move" (ls.drop 1) && startsGroup .brace ((ls.drop 1).drop 1)))) = false
  noTry : (startsWord "try" ls && startsGroup .brace (ls.drop 1)) = false
  noClosure : (starts "|" ls || startsAnyWord ["move", "static"] ls || startsClosureBinder ls ||
    (startsWord "const" ls && !startsGroup .brace (ls.drop 1)) ||
    (startsWord "async" ls && (starts "|" (ls.drop 1) || startsWord "move" (ls.drop 1)))) = false
  noBuiltin : (startsWord "builtin" ls && starts "#" (ls.drop 1)) = false
  path : (startsPath ls ||
    (startsWord "try" ls && (starts "!" (ls.drop 1) || starts "::" (ls.drop 1)))) = true

theorem StartsCallee.run_atom (h : StartsCallee ls) :
    (atom p braces).run ls = (pathExpression p braces).run ls := by
  unfold atom
  rw [run_get_bind]
  dsimp only
  rw [h.noLiteral, h.noAsync, h.noTry, h.noClosure, h.noBuiltin, h.path]
  simp only [Bool.false_eq_true, if_false, if_true]

theorem StartsCallee.of_colons (h : starts "::" ls = true) : StartsCallee ls := by
  obtain ⟨first, joint, second, rest, rfl⟩ := exists_of_colons h
  exact ⟨⟨rfl, rfl, rfl⟩, rfl, rfl, rfl, rfl, rfl, rfl⟩

theorem StartsCallee.of_angle (joint : Bool) (span : Span) (rest : List Lexeme) :
    StartsCallee (.punct '<' joint span :: rest) := by
  cases joint <;> exact ⟨⟨rfl, rfl, rfl⟩, rfl, rfl, rfl, rfl, rfl, rfl⟩

theorem StartsCallee.of_name {i : Ident} {span : Span} (hi : isPathName i = true)
    (hbrace : startsGroup .brace rest = false) (hattribute : starts "#" rest = false)
    (htry : starts "::" rest = true ∨ i ≠ .ofName "try") :
    StartsCallee (.ident i span :: rest) := by
  have hword : ∀ w, keywords.contains w = true → pathWords.contains w = false →
      startsWord w (.ident i span :: rest) = false := fun _ => startsWord_eq_false hi
  have htrue := hword "true" rfl rfl
  have hfalse := hword "false" rfl rfl
  have hasync := hword "async" rfl rfl
  have hmove := hword "move" rfl rfl
  have hstatic := hword "static" rfl rfl
  have hfor := hword "for" rfl rfl
  have hconst := hword "const" rfl rfl
  refine ⟨⟨rfl, rfl, rfl⟩, ?_, ?_, ?_, ?_, ?_, ?_⟩
  · change startsAnyWord ["true", "false"] (.ident i span :: rest) = false
    rw [startsAnyWord, List.any_cons, List.any_cons, htrue, hfalse]
    rfl
  · rw [hasync, Bool.false_and]
  · rw [List.drop_one, List.tail_cons, hbrace, Bool.and_false]
  · rw [startsAnyWord, List.any_cons, List.any_cons, startsClosureBinder, hasync, hmove, hstatic,
      hfor, hconst]
    rfl
  · rw [List.drop_one, List.tail_cons, hattribute, Bool.and_false]
  · rw [List.drop_one, List.tail_cons]
    by_cases hne : i = .ofName "try"
    · subst hne
      rw [htry.resolve_right (fun h => h rfl), Bool.or_true]
      rfl
    · rw [startsPath, startsSegment_of_isPathName hi hne]
      rfl

theorem run_valuePath {path : Path} (hangle : starts "<" ls = false)
    (h : (pathIn p true).run ls = some (path, rest)) :
    (valuePath p).run ls = some ((path.tokens, isPlain path), rest) := by
  unfold valuePath
  rw [run_get_bind, hangle, if_neg Bool.false_ne_true, run_bind_of_run h]
  rfl

theorem run_pathExpression {ts : List Token} {isPlain : Bool}
    (h : (valuePath p).run ls = some ((ts, isPlain), rest)) (hbang : startsBang rest = false)
    (hbrace : startsGroup .brace rest = false) :
    (pathExpression p braces).run ls = some (plain ts, rest) := by
  unfold pathExpression
  rw [run_bind_of_run h]
  dsimp only
  rw [run_get_bind, hbang, hbrace, Bool.false_and, Bool.and_false, if_neg Bool.false_ne_true,
    if_neg Bool.false_ne_true]
  rfl

theorem startsGroup_group (d : Delimiter) :
    startsGroup d (.group d inner opening closing :: rest) = true := decide_eq_true rfl

/-- An operand in front of one value in parentheses. -/
theorem run_trailersUpTo (h : p.ReadsValue inner value) (n : Nat) (e : Expression) :
    (trailersUpTo p (n + 1) e).run (.group .parenthesis inner opening closing :: rest) =
      (trailersUpTo p n (plain (e.tokens ++ [parens value]))).run rest := by
  rw [trailersUpTo, run_get_bind]
  dsimp only
  rw [startsGroup_group, if_pos rfl, run_bind_of_run (run_arguments h)]
  rfl

theorem run_trailersUpTo_nil (n : Nat) (e : Expression) :
    (trailersUpTo p n e).run [] = some (e, []) := by
  cases n with
  | zero => rfl
  | succ n =>
    rw [trailersUpTo, run_get_bind]
    rfl

/-- A call is an operand behind what is called. -/
theorem run_call {callee : Expression} (hfront : Unmarked ls)
    (hcallee : (atom p braces).run ls =
      some (callee, [.group .parenthesis inner opening closing]))
    (hvalue : p.ReadsValue inner value) :
    (expression p braces).run ls = some (plain (callee.tokens ++ [parens value]), []) := by
  refine run_expression (run_operand hfront hcallee ?_ rfl)
  unfold trailers
  rw [run_get_bind, List.length_singleton, run_trailersUpTo hvalue, run_trailersUpTo_nil]

/-- The word `try` in front of arguments is no expression. -/
theorem run_try (span : Span) : (expression p braces).run [.ident (.ofName "try") span,
    .group .parenthesis inner opening closing] = none := by
  have hbare : (bareOperand p braces).run [.ident (.ofName "try") span,
      .group .parenthesis inner opening closing] = none := rfl
  have hoperand : (operand p braces).run [.ident (.ofName "try") span,
      .group .parenthesis inner opening closing] = none := by
    unfold operand
    rw [run_get_bind, run_bind_of_run (run_attributes rfl), StateT.run_bind, hbare]
    rfl
  unfold expression operation
  rw [StateT.run_bind, hoperand]
  rfl

end Reader

/-- The lexemes are a call: in an expression they begin with the path, in front of one group of
arguments, and the whole is an expression, written as the path with the value in parentheses. -/
structure Phrases.ReadsCall (p : Phrases) (path : Path) (value : List Token) (ls : List Lexeme) :
    Prop where
  callee : ∃ inner opening closing, (Reader.pathIn p true).run ls =
    some (path, [.group .parenthesis inner opening closing])
  whole : ∀ braces, (Reader.expression p braces).run ls =
    some (Reader.plain (path.tokens ++ [parens value]), [])

/-- The path that is the lone word `try`. -/
def Path.loneTry : Path := ⟨false, [.mk (.ofName "try") .none]⟩

namespace Phrases.ReadsCall

variable {p : Phrases} {path : Path} {value : List Token} {ls : List Lexeme}

/-- **What is called.** Whatever the lexemes are, the path of a call may stand in an expression. -/
theorem inExpression (h : p.ReadsCall path value ls) : path.inExpression = true := by
  obtain ⟨inner, opening, closing, hcallee⟩ := h.callee
  exact (Reader.wellNamed_of_run_pathIn hcallee).arguments

theorem ne_loneTry (h : p.ReadsCall path value ls) : path ≠ .loneTry := by
  rintro rfl
  obtain ⟨inner, opening, closing, hcallee⟩ := h.callee
  rcases Reader.of_run_pathIn hcallee with ⟨hrooted, -⟩ | ⟨-, s, ss, span, next, hsegments, -, rfl,
    hnext⟩
  · cases hrooted
  · cases hsegments
    rcases hnext with ⟨rfl, -⟩ | ⟨-, hsome | hmore⟩
    · have hnone : (Reader.expression p true).run [.ident (.ofName "try") span,
          .group .parenthesis inner opening closing] = none := Reader.run_try span
      cases hnone.symm.trans (h.whole true)
    · exact hsome rfl
    · exact hmore rfl

end Phrases.ReadsCall

namespace Reader

variable {p : Phrases} {path : Path} {ls inner : List Lexeme} {value : List Token}
  {opening closing : Span}

theorem startsCallee_of_run_pathIn
    (h : (pathIn p true).run ls = some (path, [.group .parenthesis inner opening closing]))
    (hne : path ≠ .loneTry) : StartsCallee ls ∧ starts "<" ls = false := by
  rcases of_run_pathIn h with ⟨-, hcolons⟩ | ⟨hrooted, s, ss, span, next, hsegments, hname, rfl,
    hnext⟩
  · obtain ⟨first, joint, second, rest, rfl⟩ := exists_of_colons hcolons
    exact ⟨.of_colons hcolons, rfl⟩
  · rcases hnext with ⟨rfl, hnone, rfl⟩ | ⟨hcolons, -⟩
    · refine ⟨.of_name hname rfl rfl (.inr fun htry => hne ?_), rfl⟩
      obtain ⟨rooted, segments⟩ := path
      obtain ⟨name, arguments⟩ := s
      cases hrooted
      cases hsegments
      cases hnone
      cases htry
      rfl
    · obtain ⟨first, joint, second, rest, rfl⟩ := exists_of_colons hcolons
      exact ⟨.of_name hname rfl rfl (.inl hcolons), rfl⟩

/-- **Calls of functions.** A path of an expression in front of a value in parentheses is a call of
the path, unless it is the lone word `try`. -/
theorem readsCall_of_run_pathIn
    (hread : (pathIn p true).run ls = some (path, [.group .parenthesis inner opening closing]))
    (hvalue : p.ReadsValue inner value) (hne : path ≠ .loneTry) : p.ReadsCall path value ls := by
  obtain ⟨hcallee, hangle⟩ := startsCallee_of_run_pathIn hread hne
  refine ⟨⟨inner, opening, closing, hread⟩, fun braces => ?_⟩
  have hatom : (atom p braces).run ls =
      some (plain path.tokens, [.group .parenthesis inner opening closing]) := by
    rw [hcallee.run_atom, run_pathExpression (run_valuePath hangle hread) rfl rfl]
  exact run_call hcallee.toUnmarked hatom hvalue

end Reader

/-! ## Calls of methods -/

/-- The tokens are an expression: some lexemes that are written as them are read as one, which is
written as them again. -/
def Phrases.IsExpression (p : Phrases) (ts : List Token) : Prop :=
  ∃ ls, Lexeme.tokens ls = ts ∧
    ∀ braces, (Reader.expression p braces).run ls = some (Reader.plain ts, [])

/-- Some lexemes that are written as the type are read as it, in front of a closing bracket. -/
def Phrases.ReadsType (p : Phrases) (ty : Ty) : Prop :=
  ∃ ls, Lexeme.tokens ls = ty.tokens ∧ ∀ rest, Reader.starts ">" rest = true →
    (p.ty true).run (ls ++ rest) = some (ty, rest)

namespace Reader

variable {p : Phrases} {inner : List Lexeme} {value : List Token} {braces : Bool} {i : Ident}

theorem startsWord_of_isName {w : String} {span : Span} {rest : List Lexeme}
    (hi : isName i = true) (hw : keywords.contains w = true) :
    startsWord w (.ident i span :: rest) = false := by
  refine Bool.eq_false_iff.mpr fun h => ?_
  obtain ⟨hraw, hname⟩ := Bool.and_eq_true_iff.mp h
  rw [Bool.not_eq_true'] at hraw
  rw [isName, hraw, of_decide_eq_true hname, hw] at hi
  cases hi

/-- The method that follows a point, without arguments. -/
theorem run_behindPoint (hi : isName i = true) {span opening closing : Span} :
    (behindPoint p).run [.ident i span, .group .parenthesis [] opening closing] =
      some (op "." ++ [.ident i.text, parens []], []) := by
  have hmember : member.run [.ident i span, .group .parenthesis [] opening closing] =
      some ((true, .ident i.text), [.group .parenthesis [] opening closing]) := by
    change (do return (true, Token.ident (← ident).text) : Reader (Bool × Token)).run _ = _
    have hident : ident.run [.ident i span, .group .parenthesis [] opening closing] =
        some (i, [.group .parenthesis [] opening closing]) := by
      change (if isName i then pure i else failure : Reader Ident).run _ = _
      rw [if_pos hi]
      rfl
    rw [run_bind_of_run hident]
    rfl
  have hselection : (selection p).run [.ident i span, .group .parenthesis [] opening closing] =
      some (op "." ++ [.ident i.text, parens []], []) := by
    unfold selection
    rw [run_bind_of_run hmember]
    dsimp only
    rw [run_get_bind, if_neg (by exact Bool.false_ne_true), pure_bind, run_get_bind,
      if_pos (by exact rfl), run_bind_of_run run_noArguments]
    rfl
  have hnamed : (do
      if ← word? "await" then return op "." ++ [.ident "await"] else selection p :
        Reader (List Token)).run [.ident i span, .group .parenthesis [] opening closing] =
      some (op "." ++ [.ident i.text, parens []], []) := by
    have hword : (word? "await").run [.ident i span, .group .parenthesis [] opening closing] =
        some (false, [.ident i span, .group .parenthesis [] opening closing]) := by
      unfold word?
      rw [run_get_bind, startsWord_of_isName hi rfl]
      rfl
    rw [run_bind_of_run hword, if_neg Bool.false_ne_true, hselection]
  unfold behindPoint
  exact hnamed

theorem run_atom_parens {rest : List Lexeme} {opening closing : Span}
    (hvalue : p.ReadsValue inner value) :
    (atom p braces).run (.group .parenthesis inner opening closing :: rest) =
      some (plain [parens value], rest) := by
  unfold atom
  rw [run_get_bind]
  dsimp only
  rw [if_neg (by exact Bool.false_ne_true), if_neg (by exact Bool.false_ne_true),
    if_neg (by exact Bool.false_ne_true), if_neg (by exact Bool.false_ne_true),
    if_neg (by exact Bool.false_ne_true), if_neg (by exact Bool.false_ne_true),
    if_pos (by exact rfl), run_bind_of_run (run_arguments hvalue)]
  rfl

/-- A call of a method of the value. -/
theorem isExpression_method (hvalue : p.ReadsValue inner value) (hi : isName i = true) :
    p.IsExpression ([parens value] ++ (op "." ++ [.ident i.text, parens []])) := by
  refine ⟨[.group .parenthesis inner .nowhere .nowhere, .punct '.' false .nowhere,
    .ident i .nowhere, .group .parenthesis [] .nowhere .nowhere], ?_, fun braces => ?_⟩
  · change [Token.group .parenthesis (Lexeme.tokens inner), .punct '.' false, .ident i.text,
      parens []] = _
    rw [hvalue.written]
    rfl
  · refine run_expression (run_operand ⟨rfl, rfl, rfl⟩ (run_atom_parens hvalue) ?_ rfl)
    unfold trailers
    rw [run_get_bind]
    change (trailersUpTo p 3 _).run _ = _
    rw [trailersUpTo, run_get_bind]
    dsimp only
    rw [if_neg (by exact Bool.false_ne_true), if_pos (by exact rfl),
      run_bind_of_run (run_mark rfl)]
    change StateT.run _ [Lexeme.ident i .nowhere, .group .parenthesis [] .nowhere .nowhere] = _
    rw [run_bind_of_run (run_behindPoint hi), run_trailersUpTo_nil]
    rfl

/-- The lexemes behind the type in front of a method. -/
def methodLexemes (i : Ident) (inner : List Lexeme) : List Lexeme :=
  .punct '>' false .nowhere :: (colons ++
    [.ident i .nowhere, .group .parenthesis inner .nowhere .nowhere])

/-- The method of a type. -/
theorem run_qualified {ty : Ty} {ls : List Lexeme} (span : Span) (hi : isName i = true)
    (hty : (p.ty true).run (ls ++ methodLexemes i inner) = some (ty, methodLexemes i inner)) :
    (qualified p true).run (.punct '<' false span :: (ls ++ methodLexemes i inner)) =
      some (op "<" ++ ty.tokens ++ op ">" ++ op "::" ++ [.ident i.text],
        [.group .parenthesis inner .nowhere .nowhere]) := by
  have hpath : isPathName i = true := by rw [isPathName, hi, Bool.true_or]
  have hnames : ∀ (args : Reader Arguments) (n : Nat),
      (segmentsUpTo (segment args true) (n + 1)).run
          [.ident i .nowhere, .group .parenthesis inner .nowhere .nowhere] =
        some ([.mk i .none], [.group .parenthesis inner .nowhere .nowhere]) := by
    intro args n
    rw [segmentsUpTo, run_bind_of_run (run_segment_of_name hpath rfl rfl)]
    rfl
  have hword : (word? "as").run (methodLexemes i inner) = some (false, methodLexemes i inner) := rfl
  unfold qualified
  rw [run_bind_of_run (run_mark rfl)]
  change StateT.run _ (ls ++ methodLexemes i inner) = _
  rw [run_bind_of_run hty, run_bind_of_run hword, if_neg Bool.false_ne_true, pure_bind,
    run_bind_of_run (run_mark rfl), run_bind_of_run (run_mark rfl), run_get_bind]
  change StateT.run _ [Lexeme.ident i .nowhere, .group .parenthesis inner .nowhere .nowhere] = _
  rw [run_bind_of_run (hnames _ _), List.append_nil]
  rfl

/-- A call of a method with its type in front. -/
theorem isExpression_associated {ty : Ty} (hvalue : p.ReadsValue inner value)
    (hi : isName i = true) (hty : p.ReadsType ty) :
    p.IsExpression (op "<" ++ ty.tokens ++ op ">" ++ op "::" ++ [.ident i.text, parens value]) := by
  obtain ⟨ls, hwritten, hread⟩ := hty
  have hqualified := run_qualified .nowhere hi (hread (methodLexemes i inner) rfl)
  refine ⟨.punct '<' false .nowhere :: (ls ++ methodLexemes i inner), ?_, fun braces => ?_⟩
  · change .punct '<' false :: Lexeme.tokens (ls ++ methodLexemes i inner) = _
    have hmethod : Lexeme.tokens (methodLexemes i inner) =
        op ">" ++ op "::" ++ [.ident i.text, parens value] := by
      rw [← hvalue.written]
      rfl
    rw [tokens_append, hwritten, hmethod]
    simp only [List.append_assoc]
    rfl
  · have hvaluePath : (valuePath p).run
          (.punct '<' false .nowhere :: (ls ++ methodLexemes i inner)) =
        some ((op "<" ++ ty.tokens ++ op ">" ++ op "::" ++ [.ident i.text], false),
          [.group .parenthesis inner .nowhere .nowhere]) := by
      unfold valuePath
      rw [run_get_bind, if_pos (by exact rfl), run_bind_of_run hqualified]
      rfl
    have hstarts : StartsCallee (.punct '<' false .nowhere :: (ls ++ methodLexemes i inner)) :=
      .of_angle _ _ _
    have hatom := (hstarts.run_atom : (atom p braces).run _ = _).trans
      (run_pathExpression hvaluePath rfl rfl)
    rw [run_call hstarts.toUnmarked hatom hvalue]
    simp only [plain, List.append_assoc]
    rfl

/-! ## Names as values, types and arguments -/

theorem run_pathIn_name {inExpression : Bool} {rest : List Lexeme} (hi : isPathName i = true)
    (hangle : starts "<" rest = false) (hcolons : starts "::" rest = false) :
    (pathIn p inExpression).run (.ident i .nowhere :: rest) =
      some (⟨false, [.mk i .none]⟩, rest) := by
  have hsegment : ∀ g ∈ [(Segment.mk i .none, ([] : List Lexeme))], ∀ n, g.2.length ≤ n →
      ReadsSegment (argumentsUpTo p n) g.1 g.2 :=
    List.forall_mem_singleton.mpr fun _ _ => ⟨hi, fun _ => rfl, .none⟩
  have hlexemes : pathLexemes false [(.mk i .none, [])] ++ rest = .ident i .nowhere :: rest := rfl
  rw [← hlexemes, run_pathIn_pathLexemes (List.cons_ne_nil _ _) hsegment hangle hcolons]
  rfl

theorem readsValue_name (n : Nat) (hi : isPathName i = true) (hne : i ≠ .ofName "try") :
    (Phrases.ofDepth (n + 1)).ReadsValue [.ident i .nowhere] [.ident i.text] := by
  have hstarts : StartsCallee [.ident i .nowhere] := .of_name hi rfl rfl (.inr hne)
  have hatom : (atom (.ofDepth n) true).run [.ident i .nowhere] =
      some (plain [.ident i.text], []) :=
    hstarts.run_atom.trans
      (run_pathExpression (run_valuePath rfl (run_pathIn_name hi rfl rfl)) rfl rfl)
  refine ⟨List.cons_ne_nil _ _, rfl, .other, ?_⟩
  exact run_expression (run_operand hstarts.toUnmarked hatom rfl rfl)

theorem run_ty_name {n : Nat} {rest : List Lexeme} (hi : isPathName i = true)
    (hne : i ≠ .ofName "try") (hrest : starts ">" rest = true) :
    ((Phrases.ofDepth (n + 1)).ty true).run (.ident i .nowhere :: rest) =
      some (.path false [.mk i .none], rest) := by
  have hword : ∀ w, keywords.contains w = true → pathWords.contains w = false →
      startsWord w (.ident i .nowhere :: rest) = false := fun _ => startsWord_eq_false hi
  have hfn : startsFn (.ident i .nowhere :: rest) = false := by
    rw [startsFn, startsAnyWord, List.any_cons, List.any_cons, List.any_cons, hword "fn" rfl rfl,
      hword "unsafe" rfl rfl, hword "extern" rfl rfl]
    rfl
  obtain ⟨joint, span, rest, rfl⟩ := exists_of_closing hrest
  have hpath : (Reader.path (.ofDepth n)).run (.ident i .nowhere :: .punct '>' joint span :: rest) =
      some (⟨false, [.mk i .none]⟩, .punct '>' joint span :: rest) :=
    run_pathIn_name hi rfl (by cases joint <;> rfl)
  change (ty (.ofDepth n) true).run (.ident i .nowhere :: .punct '>' joint span :: rest) = _
  unfold ty
  rw [run_get_bind, if_neg (by rw [hword "for" rfl rfl]; exact Bool.false_ne_true),
    if_neg (by exact Bool.false_ne_true), if_neg (by rw [hfn]; exact Bool.false_ne_true),
    if_neg (by exact Bool.false_ne_true),
    if_pos (by rw [startsSegment_of_isPathName hi hne]; rfl)]
  unfold pathTy
  rw [run_bind_of_run hpath, run_get_bind, if_neg (by exact Bool.false_ne_true),
    if_neg (by exact Bool.false_ne_true)]
  rfl

theorem readsType_name (n : Nat) (hi : isPathName i = true) (hne : i ≠ .ofName "try") :
    (Phrases.ofDepth (n + 1)).ReadsType (.path false [.mk i .none]) :=
  ⟨[.ident i .nowhere], rfl, fun _ => run_ty_name hi hne⟩

/-- One type between angle brackets, behind `::`. -/
theorem readsArguments_name (n : Nat) (hi : isPathName i = true) (hne : i ≠ .ofName "try") :
    (Phrases.ofDepth (n + 1)).ReadsArguments
      (.angled true [.type (.path false [.mk i .none])] false) := by
  refine ⟨colons ++ [.punct '<' false .nowhere, .ident i .nowhere, .punct '>' false .nowhere],
    rfl, fun k hk => .angled nofun (fun _ => rfl) fun rest => ?_⟩
  obtain ⟨k, rfl⟩ := Nat.exists_eq_add_of_le' (Nat.le_trans (by decide : 2 ≤ 5) hk)
  have hliteral :
      startsLiteral (.ident i .nowhere :: .punct '>' false .nowhere :: rest) = false := by
    change startsAnyWord ["true", "false"] _ = false
    rw [startsAnyWord, List.any_cons, List.any_cons, startsWord_eq_false hi rfl rfl,
      startsWord_eq_false hi rfl rfl]
    rfl
  have hargument : (argumentUpTo (.ofDepth (n + 1)) (k + 1)).run
      (.ident i .nowhere :: .punct '>' false .nowhere :: rest) =
        some (.type (.path false [.mk i .none]), .punct '>' false .nowhere :: rest) := by
    rw [argumentUpTo, run_get_bind, if_neg (by exact Bool.false_ne_true),
      if_neg (by rw [hliteral]; exact Bool.false_ne_true), run_bind_of_run (run_ty_name hi hne rfl)]
    rfl
  have hlist : (list "," (starts ">") (argumentUpTo (.ofDepth (n + 1)) (k + 1))).run
      (.ident i .nowhere :: .punct '>' false .nowhere :: rest) =
        some (([.type (.path false [.mk i .none])], false), .punct '>' false .nowhere :: rest) := by
    unfold list
    rw [run_get_bind, listUpTo, run_get_bind, if_neg (by exact Bool.false_ne_true),
      run_bind_of_run hargument]
    rfl
  change (argumentsUpTo (.ofDepth (n + 1)) (k + 2)).run (colons ++ (.punct '<' false .nowhere ::
    .ident i .nowhere :: .punct '>' false .nowhere :: rest)) = _
  have hturbofish : (mark? "::").run (colons ++ (.punct '<' false .nowhere ::
      .ident i .nowhere :: .punct '>' false .nowhere :: rest)) =
        some (true, .punct '<' false .nowhere :: .ident i .nowhere ::
          .punct '>' false .nowhere :: rest) := rfl
  rw [argumentsUpTo, run_bind_of_run hturbofish, run_bind_of_run (run_mark rfl)]
  change StateT.run _ (.ident i .nowhere :: .punct '>' false .nowhere :: rest) = _
  rw [run_bind_of_run hlist]
  rfl

end Reader

/-- Whether there are no arguments or just a name, behind `::<`. -/
def Arguments.isSimple : Arguments → Bool
  | .none => true
  | .angled true [.type (.path false [.mk i .none])] false =>
    Reader.isPathName i && i ≠ .ofName "try"
  | _ => false

theorem Phrases.readsArguments_of_isSimple (n : Nat) {a : Arguments} (h : a.isSimple = true) :
    (Phrases.ofDepth (n + 1)).ReadsArguments a := by
  unfold Arguments.isSimple at h
  split at h
  next => exact Phrases.readsArguments_none _
  next i =>
    obtain ⟨hi, hne⟩ := Bool.and_eq_true_iff.mp h
    exact Reader.readsArguments_name n hi (of_decide_eq_true hne)
  next => cases h

end FieldRules
