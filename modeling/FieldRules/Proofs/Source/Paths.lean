import FieldRules.Source.Block

/-!
# Paths in types and in expressions

The path of a validator is read as one in a type, where `<` begins the arguments of a name, but it
is written where an expression stands, and there only `::<` does. The two grammars are compared on
the same lexemes: a path that a type can have is read alike in an expression exactly if `::` stands
in front of all its arguments (`Reader.run_pathIn_iff`), and otherwise the reader of expressions
stops at the first `<` without it (`Reader.pathIn_cases`). What is written for a path of an
expression is read as the path again, if the arguments are read back (`Reader.exists_run_pathIn`).
-/

namespace FieldRules

/-! ## Runs of readers -/

namespace Reader

variable {α β : Type} {ls rest : List Lexeme}

theorem run_bind_of_run {r : Reader α} {a : α} (h : r.run ls = some (a, rest))
    (f : α → Reader β) : (r >>= f).run ls = (f a).run rest := by
  rw [StateT.run_bind, h]
  rfl

theorem exists_of_run_bind {r : Reader α} {f : α → Reader β} {x : β × List Lexeme}
    (h : (r >>= f).run ls = some x) :
    ∃ a after, r.run ls = some (a, after) ∧ (f a).run after = some x := by
  rw [StateT.run_bind] at h
  obtain ⟨⟨a, after⟩, hr, hf⟩ := Option.bind_eq_some_iff.mp h
  exact ⟨a, after, hr, hf⟩

theorem run_get_bind (f : List Lexeme → Reader β) : (get >>= f).run ls = (f ls).run ls := rfl

theorem run_mark? (s : String) : (mark? s).run ls =
    some (if starts s ls then (true, ls.drop s.length) else (false, ls)) := by
  unfold mark?
  rw [run_get_bind]
  split <;> rfl

theorem run_mark {s : String} (h : starts s ls = true) :
    (mark s).run ls = some ((), ls.drop s.length) := by
  unfold mark
  rw [run_get_bind, if_pos h]
  rfl

end Reader

/-! ## The two forms of a path -/

/-- Whether the arguments may stand in an expression: there are none, or `::` stands in front. -/
def Arguments.inExpression : Arguments → Bool
  | .none => true
  | .angled turbofish _ _ => turbofish
  | .parenthesized _ => false

/-- Whether the path may stand in an expression. -/
def Path.inExpression (path : Path) : Bool := path.segments.all (·.arguments.inExpression)

/-- Arguments between angle brackets without `::` in front of them. -/
def Arguments.IsBare (a : Arguments) : Prop := ∃ items trailing, a = .angled false items trailing

/-- The reader gives arguments between angle brackets, with `::` in front exactly if it comes
next. -/
def ReadsAngled (r : Reader Arguments) : Prop :=
  ∀ ls a rest, r.run ls = some (a, rest) →
    ∃ items trailing, a = .angled (Reader.starts "::" ls) items trailing

namespace Reader

variable {ls rest : List Lexeme}

theorem readsAngled_argumentsUpTo (p : Phrases) (n : Nat) : ReadsAngled (argumentsUpTo p n) := by
  intro ls a rest h
  cases n with
  | zero => cases h
  | succ n =>
    rw [argumentsUpTo] at h
    obtain ⟨turbofish, ls₁, hturbofish, h⟩ := exists_of_run_bind h
    obtain ⟨-, ls₂, -, h⟩ := exists_of_run_bind h
    obtain ⟨⟨items, trailing⟩, ls₃, -, h⟩ := exists_of_run_bind h
    obtain ⟨-, ls₄, -, h⟩ := exists_of_run_bind h
    cases h
    rw [run_mark?] at hturbofish
    refine ⟨items, trailing, ?_⟩
    split at hturbofish
    next hstarts => cases hturbofish; rw [hstarts]
    next hstarts => cases hturbofish; rw [Bool.eq_false_iff.mpr hstarts]

/-- Marks that begin lexemes are no other ones. -/
theorem starts_colons_of_angle (h : starts "<" ls = true) : starts "::" ls = false := by
  match ls with
  | .punct c joint span :: ls =>
    have hc : decide ('<' = c) = true := (Bool.and_eq_true_iff.mp h).1
    cases of_decide_eq_true hc
    cases joint <;> rfl
  | .ident .. :: _ => cases h
  | .literal .. :: _ => cases h
  | .group .. :: _ => cases h
  | [] => cases h

/-- The name at the front of a segment that can have arguments. -/
def segmentName : Reader Ident := do
  if startsWord "Self" (← get) then anyIdent else ident

/-- A segment with the given name and the arguments that follow. -/
def withArguments (arguments : Reader Arguments) (inExpression : Bool) (name : Ident) :
    Reader Segment := do
  let ls ← get
  if (!inExpression && starts "<" ls && !starts "<=" ls) ||
      (starts "::" ls && starts "<" (ls.drop 2)) then
    return .mk name (← arguments)
  else return .mk name .none

theorem run_segment (args : Reader Arguments) (inExpression : Bool) (ls : List Lexeme) :
    (segment args inExpression).run ls =
      if startsBareSegment ls then
        (anyIdent >>= fun i => pure (.mk i .none) : Reader Segment).run ls
      else (segmentName >>= withArguments args inExpression).run ls := by
  unfold segment segmentName
  rw [run_get_bind]
  split
  · rfl
  · change (get >>= fun ls => _ : Reader Segment).run ls =
      (ite (startsWord "Self" ls) anyIdent ident >>= _ : Reader Segment).run ls
    rw [run_get_bind]
    split <;> rfl

theorem withArguments_cases {args : Reader Arguments} (hargs : ReadsAngled args) {name : Ident}
    {s : Segment} (h : (withArguments args false name).run ls = some (s, rest)) :
    s.name = name ∧
      ((s.arguments.inExpression = true ∧ (withArguments args true name).run ls = some (s, rest)) ∨
        s.arguments.IsBare ∧ starts "<" ls = true ∧
          (withArguments args true name).run ls = some (.mk name .none, ls)) := by
  unfold withArguments at h ⊢
  rw [run_get_bind] at h ⊢
  by_cases hturbofish : (starts "::" ls && starts "<" (ls.drop 2)) = true
  · rw [hturbofish, Bool.or_true, if_pos rfl] at h
    rw [hturbofish, Bool.or_true, if_pos rfl]
    obtain ⟨a, after, ha, hs⟩ := exists_of_run_bind h
    cases hs
    obtain ⟨items, trailing, rfl⟩ := hargs _ _ _ ha
    exact ⟨rfl, .inl ⟨(Bool.and_eq_true_iff.mp hturbofish).1, h⟩⟩
  · rw [Bool.eq_false_iff.mpr hturbofish, Bool.or_false] at h
    rw [Bool.eq_false_iff.mpr hturbofish]
    split at h
    next hangle =>
      have hangle : starts "<" ls = true := by
        simp only [Bool.not_false, Bool.true_and, Bool.and_eq_true] at hangle
        exact hangle.1
      obtain ⟨a, after, ha, hs⟩ := exists_of_run_bind h
      cases hs
      obtain ⟨items, trailing, rfl⟩ := hargs _ _ _ ha
      rw [starts_colons_of_angle hangle]
      exact ⟨rfl, .inr ⟨⟨items, trailing, rfl⟩, hangle, rfl⟩⟩
    next =>
      cases h
      exact ⟨rfl, .inl ⟨rfl, rfl⟩⟩

/-- A name of a path with its arguments, read in an expression: the same, or without arguments that
no `::` stands in front of. -/
theorem segment_cases {args : Reader Arguments} (hargs : ReadsAngled args) {s : Segment}
    (h : (segment args false).run ls = some (s, rest)) :
    (s.arguments.inExpression = true ∧ (segment args true).run ls = some (s, rest)) ∨
      s.arguments.IsBare ∧ ∃ rest', starts "<" rest' = true ∧
        (segment args true).run ls = some (.mk s.name .none, rest') := by
  rw [run_segment] at h ⊢
  split at h
  next hbare =>
    rw [if_pos hbare]
    obtain ⟨i, after, hi, hs⟩ := exists_of_run_bind h
    cases hs
    exact .inl ⟨rfl, h⟩
  next hbare =>
    rw [if_neg hbare]
    obtain ⟨name, after, hname, hs⟩ := exists_of_run_bind h
    rw [run_bind_of_run hname]
    obtain ⟨rfl, hsame | ⟨hbareArgs, hangle, hstop⟩⟩ := withArguments_cases hargs hs
    · exact .inl hsame
    · exact .inr ⟨hbareArgs, after, hangle, hstop⟩

/-- The names of a path, read in an expression: the same, or those up to the first with arguments
that no `::` stands in front of. -/
theorem segmentsUpTo_cases {args : Reader Arguments} (hargs : ReadsAngled args) {n : Nat}
    {ss : List Segment} (h : (segmentsUpTo (segment args false) n).run ls = some (ss, rest)) :
    (ss.all (·.arguments.inExpression) = true ∧
        (segmentsUpTo (segment args true) n).run ls = some (ss, rest)) ∨
      ∃ before s after rest', ss = before ++ s :: after ∧ s.arguments.IsBare ∧
        starts "<" rest' = true ∧ (segmentsUpTo (segment args true) n).run ls =
          some (before ++ [.mk s.name .none], rest') := by
  induction n generalizing ls ss with
  | zero => cases h
  | succ n ih =>
    rw [segmentsUpTo] at h ⊢
    obtain ⟨s, after, hs, h⟩ := exists_of_run_bind h
    rw [run_get_bind] at h
    rcases segment_cases hargs hs with ⟨hform, hsame⟩ | ⟨hbare, rest', hangle, hstop⟩
    · rw [run_bind_of_run hsame, run_get_bind]
      split at h
      next hmore =>
        rw [if_pos hmore]
        obtain ⟨⟨⟩, next, hmark, h⟩ := exists_of_run_bind h
        rw [run_bind_of_run hmark]
        obtain ⟨ss', rest₁, hss, hcons⟩ := exists_of_run_bind h
        cases hcons
        rcases ih hss with ⟨hall, hread⟩ | ⟨before, t, after', rest', rfl, hbare, hangle, hread⟩
        · rw [run_bind_of_run hread]
          exact .inl ⟨by rw [List.all_cons, hform, hall]; rfl, rfl⟩
        · rw [run_bind_of_run hread]
          exact .inr ⟨s :: before, t, after', rest', rfl, hbare, hangle, rfl⟩
      next hlast =>
        rw [if_neg hlast]
        cases h
        exact .inl ⟨by rw [List.all_cons, hform]; rfl, rfl⟩
    · rw [run_bind_of_run hstop, run_get_bind, starts_colons_of_angle hangle]
      refine .inr ⟨[], s, ss.drop 1, rest', ?_, hbare, hangle, rfl⟩
      split at h
      · obtain ⟨-, next, -, h⟩ := exists_of_run_bind h
        obtain ⟨ss', rest₁, -, hcons⟩ := exists_of_run_bind h
        cases hcons
        rfl
      · cases h
        rfl

/-- The arguments of a path of a type are between angle brackets. -/
theorem arguments_of_run_segmentsUpTo {args : Reader Arguments} (hargs : ReadsAngled args) {n : Nat}
    {ss : List Segment} (h : (segmentsUpTo (segment args false) n).run ls = some (ss, rest)) :
    ∀ s ∈ ss, s.arguments.inExpression = true ∨ s.arguments.IsBare := by
  induction n generalizing ls ss with
  | zero => cases h
  | succ n ih =>
    rw [segmentsUpTo] at h
    obtain ⟨s, after, hs, h⟩ := exists_of_run_bind h
    have hfirst : s.arguments.inExpression = true ∨ s.arguments.IsBare :=
      (segment_cases hargs hs).imp And.left And.left
    rw [run_get_bind] at h
    split at h
    · obtain ⟨-, next, -, h⟩ := exists_of_run_bind h
      obtain ⟨ss', rest', hss, hcons⟩ := exists_of_run_bind h
      cases hcons
      exact List.forall_mem_cons.mpr ⟨hfirst, ih hss⟩
    · cases h
      exact List.forall_mem_singleton.mpr hfirst

theorem arguments_of_run_path {p : Phrases} {path : Path}
    (h : (Reader.path p).run ls = some (path, rest)) :
    ∀ s ∈ path.segments, s.arguments.inExpression = true ∨ s.arguments.IsBare := by
  unfold Reader.path pathIn at h
  rw [run_get_bind, pathUpTo] at h
  obtain ⟨rooted, after, -, h⟩ := exists_of_run_bind h
  rw [run_get_bind] at h
  obtain ⟨ss, after', hss, hpath⟩ := exists_of_run_bind h
  cases hpath
  exact arguments_of_run_segmentsUpTo (readsAngled_argumentsUpTo p _) hss

/-- **A path of a type, read in an expression.** It is read alike if `::` stands in front of all its
arguments. Otherwise the reader stops at a `<` that begins arguments without `::`, and takes the
names up to there. -/
theorem pathIn_cases {p : Phrases} {path : Path}
    (h : (Reader.path p).run ls = some (path, rest)) :
    (path.inExpression = true ∧ (pathIn p true).run ls = some (path, rest)) ∨
      ∃ before s after rest', path.segments = before ++ s :: after ∧ s.arguments.IsBare ∧
        starts "<" rest' = true ∧
        (pathIn p true).run ls = some (⟨path.rooted, before ++ [.mk s.name .none]⟩, rest') := by
  unfold Reader.path pathIn at h
  unfold pathIn
  rw [run_get_bind] at h ⊢
  rw [pathUpTo] at h ⊢
  obtain ⟨rooted, after, hrooted, h⟩ := exists_of_run_bind h
  rw [run_bind_of_run hrooted]
  rw [run_get_bind] at h ⊢
  obtain ⟨ss, after', hss, hpath⟩ := exists_of_run_bind h
  cases hpath
  rcases segmentsUpTo_cases (readsAngled_argumentsUpTo p _) hss with
    ⟨hall, hread⟩ | ⟨before, s, tail, rest', rfl, hbare, hangle, hread⟩
  · exact .inl ⟨hall, run_bind_of_run hread _⟩
  · exact .inr ⟨before, s, tail, rest', rfl, hbare, hangle, run_bind_of_run hread _⟩

/-! ## The front of a path -/

/-- Whether the identifier is a keyword that is a name of a path without arguments. -/
def isModuleWord (i : Ident) : Bool := startsBareSegment [.ident i .nowhere]

/-- The keywords that are names of a path. -/
def pathWords : List String := ["super", "self", "Self", "crate", "try"]

/-- Whether the identifier is a name of a path. -/
def isPathName (i : Ident) : Bool := isName i || (!i.raw && pathWords.contains i.name)

theorem of_run_anyIdent {i : Ident} (h : anyIdent.run ls = some (i, rest)) :
    ∃ span, ls = .ident i span :: rest := by
  unfold anyIdent at h
  rw [run_get_bind] at h
  split at h
  · cases h
    exact ⟨_, rfl⟩
  · cases h

theorem of_run_ident {i : Ident} (h : ident.run ls = some (i, rest)) :
    isName i = true ∧ ∃ span, ls = .ident i span :: rest := by
  obtain ⟨j, after, hj, h⟩ := exists_of_run_bind h
  split at h
  next hname =>
    cases h
    exact ⟨hname, of_run_anyIdent hj⟩
  next => cases h

/-- Some of the keywords that are names of a path begin the lexemes. -/
theorem isPathName_of_startsAnyWord {ws : List String} {i : Ident} {span : Span}
    (hws : ws.all pathWords.contains = true)
    (h : startsAnyWord ws (.ident i span :: rest) = true) : isPathName i = true := by
  obtain ⟨w, hw, hstarts⟩ := List.any_eq_true.mp h
  obtain ⟨hraw, hname⟩ := Bool.and_eq_true_iff.mp hstarts
  rw [isPathName, hraw, of_decide_eq_true hname, List.all_eq_true.mp hws w hw, Bool.and_self,
    Bool.or_true]

/-- A word that is no name of a path is not at its front. -/
theorem startsWord_eq_false {i : Ident} {w : String} {span : Span} (hi : isPathName i = true)
    (hw : keywords.contains w = true) (hpath : pathWords.contains w = false) :
    startsWord w (.ident i span :: rest) = false := by
  refine Bool.eq_false_iff.mpr fun h => ?_
  obtain ⟨hraw, hname⟩ := Bool.and_eq_true_iff.mp h
  rw [Bool.not_eq_true'] at hraw
  have hname := of_decide_eq_true hname
  rw [isPathName, isName, hraw, hname, hw, hpath] at hi
  cases hi

/-- A name of a path that is not `try` begins one. -/
theorem startsSegment_of_isPathName {i : Ident} {span : Span} (hi : isPathName i = true)
    (hne : i ≠ .ofName "try") : startsSegment (.ident i span :: rest) = true := by
  rcases Bool.or_eq_true_iff.mp hi with hname | hword
  · rw [startsSegment, startsName, hname, Bool.true_or]
  · obtain ⟨raw, name⟩ := i
    obtain ⟨hraw, hmem⟩ := Bool.and_eq_true_iff.mp hword
    rw [Bool.not_eq_true'] at hraw
    cases hraw
    simp only [List.contains_iff_mem, pathWords, List.mem_cons, List.not_mem_nil, or_false] at hmem
    rcases hmem with rfl | rfl | rfl | rfl | rfl
    · rfl
    · rfl
    · rfl
    · rfl
    · exact absurd rfl hne

theorem of_run_segmentName {i : Ident} (h : segmentName.run ls = some (i, rest)) :
    isPathName i = true ∧ ∃ span, ls = .ident i span :: rest := by
  unfold segmentName at h
  rw [run_get_bind] at h
  split at h
  next hself =>
    obtain ⟨span, rfl⟩ := of_run_anyIdent h
    have hself : startsAnyWord ["Self"] (.ident i span :: rest) = true := by
      rw [startsAnyWord, List.any_cons, hself, Bool.true_or]
    exact ⟨isPathName_of_startsAnyWord rfl hself, span, rfl⟩
  next =>
    obtain ⟨hname, hfront⟩ := of_run_ident h
    exact ⟨by rw [isPathName, hname, Bool.true_or], hfront⟩

/-- A name of a path begins the lexemes, and what comes behind it are its arguments or the rest. -/
theorem of_run_segment {args : Reader Arguments} (hargs : ReadsAngled args) {s : Segment}
    (h : (segment args true).run ls = some (s, rest)) :
    isPathName s.name = true ∧ s.arguments.inExpression = true ∧
      (isModuleWord s.name = true → s.arguments = .none) ∧
      ∃ span next, ls = .ident s.name span :: next ∧
        (next = rest ∧ s.arguments = .none ∨ starts "::" next = true ∧ s.arguments ≠ .none) := by
  rw [run_segment] at h
  split at h
  next hbare =>
    obtain ⟨i, after, hi, hs⟩ := exists_of_run_bind h
    cases hs
    obtain ⟨span, rfl⟩ := of_run_anyIdent hi
    exact ⟨isPathName_of_startsAnyWord rfl hbare, rfl, fun _ => rfl, span, rest, rfl,
      .inl ⟨rfl, rfl⟩⟩
  next hbare =>
    obtain ⟨name, after, hname, hs⟩ := exists_of_run_bind h
    obtain ⟨hpath, span, rfl⟩ := of_run_segmentName hname
    unfold withArguments at hs
    rw [run_get_bind] at hs
    split at hs
    next hturbofish =>
      obtain ⟨a, rest', ha, hs⟩ := exists_of_run_bind hs
      cases hs
      obtain ⟨items, trailing, rfl⟩ := hargs _ _ _ ha
      have hcolons : starts "::" after = true := (Bool.and_eq_true_iff.mp hturbofish).1
      exact ⟨hpath, hcolons, fun hword => absurd hword hbare, span, after, rfl,
        .inr ⟨hcolons, nofun⟩⟩
    next =>
      cases hs
      exact ⟨hpath, rfl, fun _ => rfl, span, rest, rfl, .inl ⟨rfl, rfl⟩⟩

/-- A path in an expression has at least one name, all of its names are names of a path, and all of
their arguments may stand in an expression. -/
structure WellNamed (ss : List Segment) : Prop where
  nonempty : ss ≠ []
  /-- No name is a keyword that stands for something else. -/
  names : ∀ s ∈ ss, isPathName s.name = true
  /-- The names of modules that are keywords have no arguments. -/
  modules : ∀ s ∈ ss, isModuleWord s.name = true → s.arguments = .none
  arguments : ss.all (·.arguments.inExpression) = true

theorem of_run_segmentsUpTo {args : Reader Arguments} (hargs : ReadsAngled args) {n : Nat}
    {ss : List Segment} (h : (segmentsUpTo (segment args true) n).run ls = some (ss, rest)) :
    WellNamed ss := by
  induction n generalizing ls ss with
  | zero => cases h
  | succ n ih =>
    rw [segmentsUpTo] at h
    obtain ⟨s, after, hs, h⟩ := exists_of_run_bind h
    obtain ⟨hname, harguments, hmodule, -⟩ := of_run_segment hargs hs
    rw [run_get_bind] at h
    split at h
    · obtain ⟨-, next, -, h⟩ := exists_of_run_bind h
      obtain ⟨ss', rest', hss, h⟩ := exists_of_run_bind h
      cases h
      have hmore := ih hss
      refine ⟨List.cons_ne_nil _ _, List.forall_mem_cons.mpr ⟨hname, hmore.names⟩,
        List.forall_mem_cons.mpr ⟨hmodule, hmore.modules⟩, ?_⟩
      rw [List.all_cons, harguments, hmore.arguments]
      rfl
    · cases h
      refine ⟨List.cons_ne_nil _ _, List.forall_mem_singleton.mpr hname,
        List.forall_mem_singleton.mpr hmodule, ?_⟩
      rw [List.all_cons, harguments]
      rfl

/-- **Paths of expressions.** Whatever the lexemes are, a path that is read in an expression has no
arguments without `::` in front of them. -/
theorem wellNamed_of_run_pathIn {p : Phrases} {path : Path}
    (h : (pathIn p true).run ls = some (path, rest)) : WellNamed path.segments := by
  unfold pathIn at h
  rw [run_get_bind, pathUpTo] at h
  obtain ⟨rooted, after, -, h⟩ := exists_of_run_bind h
  rw [run_get_bind] at h
  obtain ⟨ss, after', hss, hpath⟩ := exists_of_run_bind h
  cases hpath
  exact of_run_segmentsUpTo (readsAngled_argumentsUpTo p _) hss

/-- What begins lexemes that begin with a path: `::`, or the first name. The name is all of the
path, or else `::` stands behind it. -/
theorem of_run_pathIn {p : Phrases} {path : Path}
    (h : (pathIn p true).run ls = some (path, rest)) :
    path.rooted = true ∧ starts "::" ls = true ∨
      path.rooted = false ∧ ∃ s ss span next, path.segments = s :: ss ∧
        isPathName s.name = true ∧ ls = .ident s.name span :: next ∧
        (next = rest ∧ s.arguments = .none ∧ ss = [] ∨
          starts "::" next = true ∧ (s.arguments ≠ .none ∨ ss ≠ [])) := by
  unfold pathIn at h
  rw [run_get_bind, pathUpTo] at h
  obtain ⟨rooted, after, hrooted, h⟩ := exists_of_run_bind h
  rw [run_get_bind] at h
  obtain ⟨ss, after', hss, hpath⟩ := exists_of_run_bind h
  cases hpath
  rw [run_mark?] at hrooted
  split at hrooted
  next hstarts =>
    cases hrooted
    exact .inl ⟨rfl, hstarts⟩
  next =>
    cases hrooted
    rw [segmentsUpTo] at hss
    obtain ⟨s, next', hs, hss⟩ := exists_of_run_bind hss
    obtain ⟨hname, -, -, span, next, rfl, hnext⟩ :=
      of_run_segment (readsAngled_argumentsUpTo p _) hs
    rw [run_get_bind] at hss
    split at hss
    next hmore =>
      obtain ⟨-, after, -, hss⟩ := exists_of_run_bind hss
      obtain ⟨ss', rest', hss', hcons⟩ := exists_of_run_bind hss
      cases hcons
      refine .inr ⟨rfl, s, ss', span, next, rfl, hname, rfl, .inr ⟨?_, ?_⟩⟩
      · rcases hnext with ⟨rfl, -⟩ | ⟨hcolons, -⟩
        · exact (Bool.and_eq_true_iff.mp hmore).1
        · exact hcolons
      · exact .inr (of_run_segmentsUpTo (readsAngled_argumentsUpTo p _) hss').nonempty
    next =>
      cases hss
      refine .inr ⟨rfl, s, [], span, next, rfl, hname, rfl, ?_⟩
      rcases hnext with ⟨rfl, hnone⟩ | ⟨hcolons, hsome⟩
      · exact .inl ⟨rfl, hnone, rfl⟩
      · exact .inr ⟨hcolons, .inl hsome⟩

/-- The lexemes that begin with `::`. -/
theorem exists_of_colons (h : starts "::" ls = true) : ∃ first joint second rest,
    ls = .punct ':' true first :: .punct ':' joint second :: rest := by
  match ls with
  | .punct c false span :: _ => cases h
  | [.punct c true span] => cases (Bool.and_eq_true_iff.mp h).2
  | .punct c true span :: l :: ls =>
    obtain ⟨hfirst, hsecond⟩ := Bool.and_eq_true_iff.mp h
    have hc : decide (':' = c) = true := (Bool.and_eq_true_iff.mp hfirst).1
    cases of_decide_eq_true hc
    cases l with
    | punct d joint second =>
      have hd : decide (':' = d) = true := (Bool.and_eq_true_iff.mp hsecond).1
      cases of_decide_eq_true hd
      exact ⟨span, joint, second, ls, rfl⟩
    | _ => cases hsecond
  | .ident .. :: _ => cases h
  | .literal .. :: _ => cases h
  | .group .. :: _ => cases h
  | [] => cases h

/-- **The two grammars of a path.** A path that is read in a type is read alike in an expression
exactly if `::` stands in front of all its arguments. -/
theorem run_pathIn_iff {p : Phrases} {path : Path}
    (h : (Reader.path p).run ls = some (path, rest)) :
    (pathIn p true).run ls = some (path, rest) ↔ path.inExpression = true := by
  refine ⟨fun hread => (wellNamed_of_run_pathIn hread).arguments, fun hform => ?_⟩
  rcases pathIn_cases h with ⟨-, hread⟩ | ⟨before, s, after, rest', hsplit, hbare, -⟩
  · exact hread
  · obtain ⟨items, trailing, ha⟩ := hbare
    rw [Path.inExpression, hsplit, List.all_append, List.all_cons, ha] at hform
    exact absurd (Bool.and_eq_true_iff.mp (Bool.and_eq_true_iff.mp hform).2).1 Bool.false_ne_true

/-- The lexemes that begin with `>`. -/
theorem exists_of_closing (h : starts ">" ls = true) :
    ∃ joint span rest, ls = .punct '>' joint span :: rest := by
  match ls with
  | .punct c joint span :: ls =>
    have hc : decide ('>' = c) = true := (Bool.and_eq_true_iff.mp h).1
    cases of_decide_eq_true hc
    exact ⟨joint, span, ls, rfl⟩
  | .ident .. :: _ => cases h
  | .literal .. :: _ => cases h
  | .group .. :: _ => cases h
  | [] => cases h

/-! ## Reading back what was written -/

/-- The mark between the names of a path. -/
def colons : List Lexeme := [.punct ':' true .nowhere, .punct ':' false .nowhere]

/-- Names with the lexemes of their arguments, with `::` between them. -/
def segmentLexemes : List (Segment × List Lexeme) → List Lexeme
  | [] => []
  | [(s, as)] => .ident s.name .nowhere :: as
  | (s, as) :: g :: gs => .ident s.name .nowhere :: (as ++ (colons ++ segmentLexemes (g :: gs)))

/-- The lexemes of a path, given those of the arguments. -/
def pathLexemes (rooted : Bool) (gs : List (Segment × List Lexeme)) : List Lexeme :=
  (if rooted then colons else []) ++ segmentLexemes gs

theorem tokens_append (ls ls' : List Lexeme) :
    Lexeme.tokens (ls ++ ls') = Lexeme.tokens ls ++ Lexeme.tokens ls' := by
  induction ls with
  | nil => rfl
  | cons l ls ih => exact congrArg (l.token :: ·) ih

theorem tokens_segmentLexemes {gs : List (Segment × List Lexeme)}
    (h : ∀ g ∈ gs, Lexeme.tokens g.2 = g.1.arguments.tokens) :
    Lexeme.tokens (segmentLexemes gs) = segmentTokens (gs.map Prod.fst) := by
  match gs with
  | [] => rfl
  | [(.mk i a, as)] =>
    have has : Lexeme.tokens as = a.tokens := h _ List.mem_cons_self
    exact congrArg (.ident i.text :: ·) has
  | (.mk i a, as) :: g :: gs =>
    have has : Lexeme.tokens as = a.tokens := h _ List.mem_cons_self
    have hmore := tokens_segmentLexemes fun g' hg' => h g' (List.mem_cons_of_mem _ hg')
    change .ident i.text :: Lexeme.tokens (as ++ (colons ++ segmentLexemes (g :: gs))) =
      .ident i.text :: a.tokens ++ Token.op "::" ++ segmentTokens ((g :: gs).map Prod.fst)
    rw [tokens_append, tokens_append, has, hmore]
    simp only [List.cons_append, List.append_assoc]
    rfl

theorem tokens_pathLexemes {rooted : Bool} {gs : List (Segment × List Lexeme)}
    (h : ∀ g ∈ gs, Lexeme.tokens g.2 = g.1.arguments.tokens) :
    Lexeme.tokens (pathLexemes rooted gs) = (Path.mk rooted (gs.map Prod.fst)).tokens := by
  rw [pathLexemes, tokens_append, tokens_segmentLexemes h, Path.tokens, Ty.tokens]
  cases rooted <;> rfl

theorem isName_of_isPathName {i : Ident} {span : Span} (hi : isPathName i = true)
    (hbare : ¬ startsBareSegment (.ident i span :: rest) = true)
    (hself : ¬ startsWord "Self" (.ident i span :: rest) = true) : isName i = true := by
  rcases Bool.or_eq_true_iff.mp hi with hname | hword
  · exact hname
  · obtain ⟨raw, name⟩ := i
    obtain ⟨hraw, hmem⟩ := Bool.and_eq_true_iff.mp hword
    rw [Bool.not_eq_true'] at hraw
    cases hraw
    simp only [List.contains_iff_mem, pathWords, List.mem_cons, List.not_mem_nil, or_false] at hmem
    rcases hmem with rfl | rfl | rfl | rfl | rfl
    · exact absurd rfl hbare
    · exact absurd rfl hbare
    · exact absurd rfl hself
    · exact absurd rfl hbare
    · exact absurd rfl hbare

theorem run_segmentName {i : Ident} {span : Span} (hi : isPathName i = true)
    (hbare : ¬ startsBareSegment (.ident i span :: rest) = true) :
    segmentName.run (.ident i span :: rest) = some (i, rest) := by
  unfold segmentName
  rw [run_get_bind]
  split
  next => rfl
  next hself =>
    change (if isName i then pure i else failure : Reader Ident).run rest = _
    rw [if_pos (isName_of_isPathName hi hbare hself)]
    rfl

/-- A name that no arguments follow. -/
theorem run_segment_of_name {args : Reader Arguments} {inExpression : Bool} {i : Ident}
    {span : Span} (hi : isPathName i = true) (hangle : starts "<" rest = false)
    (hturbofish : (starts "::" rest && starts "<" (rest.drop 2)) = false) :
    (segment args inExpression).run (.ident i span :: rest) = some (.mk i .none, rest) := by
  have harguments : (withArguments args inExpression i).run rest = some (.mk i .none, rest) := by
    unfold withArguments
    rw [run_get_bind, hangle, hturbofish, Bool.and_false, Bool.false_and, Bool.or_false,
      if_neg Bool.false_ne_true]
    rfl
  rw [run_segment]
  split
  next => rfl
  next hbare => rw [run_bind_of_run (run_segmentName hi hbare), harguments]

/-- The reader gives the arguments back from the lexemes: there are none, or `::<` begins them. -/
inductive ReadsBack (args : Reader Arguments) : Arguments → List Lexeme → Prop
  | none : ReadsBack args .none []
  | angled {a : Arguments} {as : List Lexeme} (present : a ≠ .none)
    (front : ∀ rest, (starts "::" (as ++ rest) && starts "<" ((as ++ rest).drop 2)) = true)
    (read : ∀ rest, args.run (as ++ rest) = some (a, rest)) : ReadsBack args a as

/-- The name is one of a path, and the reader gives its arguments back from the lexemes. -/
structure ReadsSegment (args : Reader Arguments) (s : Segment) (as : List Lexeme) : Prop where
  name : isPathName s.name = true
  module : isModuleWord s.name = true → s.arguments = .none
  arguments : ReadsBack args s.arguments as

/-- A name with its arguments. -/
theorem run_segment_of_readsSegment {args : Reader Arguments} {inExpression : Bool} {s : Segment}
    {as : List Lexeme} {span : Span} (h : ReadsSegment args s as) (hangle : starts "<" rest = false)
    (hturbofish : (starts "::" rest && starts "<" (rest.drop 2)) = false) :
    (segment args inExpression).run (.ident s.name span :: (as ++ rest)) = some (s, rest) := by
  obtain ⟨i, a⟩ := s
  have hname : isPathName i = true := h.name
  have hmodule : isModuleWord i = true → a = .none := h.module
  have harguments : ReadsBack args a as := h.arguments
  cases harguments with
  | none => exact run_segment_of_name hname hangle hturbofish
  | angled hsome hfront hread =>
    have hbare : ¬ startsBareSegment (.ident i span :: (as ++ rest)) = true :=
      fun hword => hsome (hmodule hword)
    have hwith : (withArguments args inExpression i).run (as ++ rest) = some (.mk i a, rest) := by
      unfold withArguments
      rw [run_get_bind, hfront rest, Bool.or_true, if_pos rfl, run_bind_of_run (hread rest)]
      rfl
    change (segment args inExpression).run (.ident i span :: (as ++ rest)) = _
    rw [run_segment, if_neg hbare, run_bind_of_run (run_segmentName hname hbare), hwith]

theorem starts_segmentLexemes {g : Segment × List Lexeme} {gs : List (Segment × List Lexeme)}
    {s : String} (hs : s.toList ≠ []) :
    starts s (segmentLexemes (g :: gs) ++ rest) = false := by
  obtain ⟨m, ms, hms⟩ := List.exists_cons_of_ne_nil hs
  rw [starts, hms]
  cases gs <;> cases ms <;> rfl

/-- After the mark between two names come no arguments, and the path goes on. -/
theorem continues_segmentLexemes (g : Segment × List Lexeme) (gs : List (Segment × List Lexeme))
    (rest : List Lexeme) :
    let ls := colons ++ (segmentLexemes (g :: gs) ++ rest)
    (starts "::" ls && starts "<" (ls.drop 2)) = false ∧
      (starts "::" ls && !startsGroup .parenthesis (ls.drop 2)) = true := by
  have hangle : starts "<" (segmentLexemes (g :: gs) ++ rest) = false :=
    starts_segmentLexemes (by decide)
  have hgroup : startsGroup .parenthesis (segmentLexemes (g :: gs) ++ rest) = false := by
    cases gs <;> rfl
  constructor
  · change (true && starts "<" (segmentLexemes (g :: gs) ++ rest)) = false
    rw [hangle]
    rfl
  · change (true && !startsGroup .parenthesis (segmentLexemes (g :: gs) ++ rest)) = true
    rw [hgroup]
    rfl

theorem run_segmentsUpTo_segmentLexemes {args : Reader Arguments} {inExpression : Bool}
    (hangle : starts "<" rest = false) (hcolons : starts "::" rest = false) {n : Nat}
    {gs : List (Segment × List Lexeme)} (hne : gs ≠ []) (hn : gs.length ≤ n)
    (hgs : ∀ g ∈ gs, ReadsSegment args g.1 g.2) :
    (segmentsUpTo (segment args inExpression) n).run (segmentLexemes gs ++ rest) =
      some (gs.map Prod.fst, rest) := by
  induction n generalizing gs with
  | zero => exact absurd (List.length_eq_zero_iff.mp (Nat.le_zero.mp hn)) hne
  | succ n ih =>
    rw [segmentsUpTo]
    match gs with
    | [] => exact absurd rfl hne
    | [(s, as)] =>
      have hs := hgs _ List.mem_cons_self
      change StateT.run _ (.ident s.name .nowhere :: (as ++ rest)) = _
      rw [run_bind_of_run (run_segment_of_readsSegment hs hangle (by rw [hcolons]; rfl)),
        run_get_bind, hcolons, Bool.false_and, if_neg Bool.false_ne_true]
      rfl
    | (s, as) :: g :: gs =>
      have hs := hgs _ List.mem_cons_self
      have hmore := ih (List.cons_ne_nil g gs) (Nat.le_of_succ_le_succ hn)
        fun g' hg' => hgs g' (List.mem_cons_of_mem _ hg')
      obtain ⟨hturbofish, hcontinue⟩ := continues_segmentLexemes g gs rest
      have hsplit : segmentLexemes ((s, as) :: g :: gs) ++ rest =
          .ident s.name .nowhere :: (as ++ (colons ++ (segmentLexemes (g :: gs) ++ rest))) := by
        rw [segmentLexemes]
        simp only [List.cons_append, List.append_assoc]
      rw [hsplit, run_bind_of_run (run_segment_of_readsSegment hs rfl hturbofish), run_get_bind,
        if_pos hcontinue, run_bind_of_run (run_mark rfl)]
      change StateT.run _ (segmentLexemes (g :: gs) ++ rest) = _
      rw [run_bind_of_run hmore]
      rfl

theorem length_le_segmentLexemes (gs : List (Segment × List Lexeme)) :
    gs.length ≤ (segmentLexemes gs).length ∧
      ∀ g ∈ gs, g.2.length ≤ (segmentLexemes gs).length := by
  match gs with
  | [] => exact ⟨Nat.le_refl _, nofun⟩
  | [(s, as)] => exact ⟨by simp [segmentLexemes], by simp [segmentLexemes]⟩
  | (s, as) :: g :: gs =>
    obtain ⟨hlength, hmem⟩ := length_le_segmentLexemes (g :: gs)
    have hsplit : (segmentLexemes ((s, as) :: g :: gs)).length =
        1 + as.length + 2 + (segmentLexemes (g :: gs)).length := by
      rw [segmentLexemes, List.length_cons, List.length_append, List.length_append,
        show colons.length = 2 from rfl]
      omega
    rw [hsplit]
    refine ⟨by rw [List.length_cons]; omega, List.forall_mem_cons.mpr ⟨by dsimp only; omega, ?_⟩⟩
    intro g' hg'
    have hle := hmem g' hg'
    omega

/-- **Paths are read back.** The lexemes of a path are read as the path, in a type and in an
expression, in front of everything that does not continue it, if its arguments are read back. -/
theorem run_pathIn_pathLexemes {p : Phrases} {inExpression rooted : Bool}
    {gs : List (Segment × List Lexeme)} (hne : gs ≠ [])
    (hgs : ∀ g ∈ gs, ∀ n, g.2.length ≤ n → ReadsSegment (argumentsUpTo p n) g.1 g.2)
    (hangle : starts "<" rest = false) (hcolons : starts "::" rest = false) :
    (pathIn p inExpression).run (pathLexemes rooted gs ++ rest) =
      some (⟨rooted, gs.map Prod.fst⟩, rest) := by
  obtain ⟨hlength, hmem⟩ := length_le_segmentLexemes gs
  have hread : ∀ n, (segmentLexemes gs).length ≤ n →
      (segmentsUpTo (segment (argumentsUpTo p n) inExpression)
        ((segmentLexemes gs ++ rest).length + 1)).run (segmentLexemes gs ++ rest) =
          some (gs.map Prod.fst, rest) := by
    intro n hn
    refine run_segmentsUpTo_segmentLexemes hangle hcolons hne ?_ fun g hg =>
      hgs g hg n (Nat.le_trans (hmem g hg) hn)
    rw [List.length_append]
    omega
  have hrooted : (mark? "::").run (pathLexemes rooted gs ++ rest) =
      some (rooted, segmentLexemes gs ++ rest) := by
    rw [run_mark?, pathLexemes]
    cases rooted with
    | true => rfl
    | false =>
      obtain ⟨g, gs, rfl⟩ := List.exists_cons_of_ne_nil hne
      rw [if_neg Bool.false_ne_true, List.nil_append,
        if_neg (Bool.eq_false_iff.mp (starts_segmentLexemes (by decide)))]
  unfold pathIn
  rw [run_get_bind, pathUpTo, run_bind_of_run hrooted, run_get_bind, run_bind_of_run (hread _ ?_)]
  · rfl
  · rw [pathLexemes, List.length_append, List.length_append]
    omega

end Reader

/-- Some lexemes that are written as the arguments are read as them: there are no arguments, or
`::<` begins them. -/
def Phrases.ReadsArguments (p : Phrases) (a : Arguments) : Prop :=
  ∃ as, Lexeme.tokens as = a.tokens ∧
    ∀ n, as.length ≤ n → Reader.ReadsBack (Reader.argumentsUpTo p n) a as

theorem Phrases.readsArguments_none (p : Phrases) : p.ReadsArguments .none :=
  ⟨[], rfl, fun _ _ => .none⟩

namespace Reader

theorem exists_segmentLexemes {p : Phrases} {ss : List Segment}
    (h : ∀ s ∈ ss, p.ReadsArguments s.arguments) :
    ∃ gs : List (Segment × List Lexeme), gs.map Prod.fst = ss ∧ ∀ g ∈ gs,
      Lexeme.tokens g.2 = g.1.arguments.tokens ∧
        ∀ n, g.2.length ≤ n → ReadsBack (argumentsUpTo p n) g.1.arguments g.2 := by
  induction ss with
  | nil => exact ⟨[], rfl, nofun⟩
  | cons s ss ih =>
    obtain ⟨as, has⟩ := h s List.mem_cons_self
    obtain ⟨gs, rfl, hgs⟩ := ih fun s' hs' => h s' (List.mem_cons_of_mem _ hs')
    exact ⟨(s, as) :: gs, rfl, List.forall_mem_cons.mpr ⟨has, hgs⟩⟩

/-- Some lexemes that are written as the path are read as it, if its arguments are read back. -/
theorem exists_run_pathIn {p : Phrases} {path : Path} (hnames : WellNamed path.segments)
    (harguments : ∀ s ∈ path.segments, p.ReadsArguments s.arguments) :
    ∃ ls, Lexeme.tokens ls = path.tokens ∧ ∀ inExpression rest, starts "<" rest = false →
      starts "::" rest = false → (pathIn p inExpression).run (ls ++ rest) = some (path, rest) := by
  obtain ⟨rooted, segments⟩ := path
  obtain ⟨gs, rfl, hgs⟩ := exists_segmentLexemes harguments
  refine ⟨pathLexemes rooted gs, tokens_pathLexemes fun g hg => (hgs g hg).1, ?_⟩
  intro inExpression rest hangle hcolons
  refine run_pathIn_pathLexemes (fun hnil => hnames.nonempty (by rw [hnil]; rfl)) ?_ hangle hcolons
  intro g hg n hn
  have hmem : g.1 ∈ gs.map Prod.fst := List.mem_map_of_mem hg
  exact ⟨hnames.names _ hmem, hnames.modules _ hmem, (hgs g hg).2 n hn⟩

end Reader

end FieldRules
