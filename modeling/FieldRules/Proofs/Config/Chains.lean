import FieldRules.Chain
import FieldRules.Derive.Expand
import FieldRules.Proofs.Source.Calls

/-!
# Chains of validators and their calls

A chain is refused at its first entry that names no validator, and otherwise has one validator for
each entry. A method is called by an expression, on the value and with its type in front
(`Validator.Emits`). A function is not always called: its path is read as one in a type, but its
call stands in an expression. The code is a call of the path exactly if `::` stands in front of all
arguments of the path and the path is not the lone word `try` (`Path.Emits`); a chain with another
path is accepted all the same.
-/

namespace FieldRules

open Text

/-! ## Entries -/

namespace Reader

theorem exists_of_ofText? {α : Type} {r : Phrases → Reader α} {text : String} {a : α}
    (h : ofText? r text = some a) :
    ∃ ls, Lexeme.ofText? text = some ls ∧ (r (.ofLexemes ls)).run ls = some (a, []) := by
  unfold ofText? at h
  split at h
  next => cases h
  next ls htext =>
    split at h
    next b hrun =>
      cases h
      exact ⟨ls, htext, hrun⟩
    next => cases h

end Reader

namespace Chain

/-- The entries of a chain, in order. -/
def pieces (chain : String) : List (List Char) := (splitAt ';' chain.toList).map trim

/-- Whether the entry names a validator. -/
def isNamed (s : List Char) : Bool := Option.isSome <| entry? s

theorem entries_eq_ok {chain : String} {ss : List (List Char)} {vs : Chain}
    (h : entries chain ss = .ok vs) : ss.map entry? = vs.map some := by
  induction ss generalizing vs with
  | nil =>
    cases h
    rfl
  | cons s ss ih =>
    rw [entries] at h
    cases hs : entry? s with
    | none =>
      rw [hs] at h
      cases h
    | some v =>
      rw [hs] at h
      cases hss : entries chain ss with
      | error e =>
        rw [hss] at h
        cases h
      | ok vs' =>
        rw [hss] at h
        cases h
        rw [List.map_cons, hs, ih hss]
        rfl

theorem entries_eq_error {chain : String} {ss : List (List Char)} {e : ConfigError} :
    entries chain ss = .error e ↔ ∃ s, ss.find? (!isNamed ·) = some s ∧
      e = .invalidValidator (String.ofList s) chain := by
  induction ss with
  | nil => exact ⟨nofun, nofun⟩
  | cons s ss ih =>
    rw [entries]
    cases hs : entry? s with
    | none =>
      rw [List.find?_cons_of_pos (by rw [isNamed, hs]; rfl)]
      constructor
      · intro h
        cases h
        exact ⟨s, rfl, rfl⟩
      · rintro ⟨_, ⟨⟩, rfl⟩
        rfl
    | some v =>
      rw [List.find?_cons_of_neg (by rw [isNamed, hs]; exact Bool.false_ne_true), ← ih]
      cases entries chain ss with
      | ok vs => exact ⟨nofun, nofun⟩
      | error e' => exact Iff.rfl

/-- A chain is accepted if each of its entries names a validator. -/
theorem exists_parse_eq_ok {chain : String} (h : (pieces chain).all isNamed = true) :
    ∃ vs, parse chain = .ok vs := by
  cases hchain : parse chain with
  | ok vs => exact ⟨vs, rfl⟩
  | error e =>
    obtain ⟨s, hs, -⟩ := entries_eq_error.mp hchain
    have hunnamed := List.find?_some hs
    rw [List.all_eq_true.mp h s (List.mem_of_find?_eq_some hs)] at hunnamed
    cases hunnamed

/-- What an entry is that names a validator: a point and an identifier, or a path of a type. -/
theorem entry?_cases {s : List Char} {v : Validator} (h : entry? s = some v) :
    (∃ text name span, s = '.' :: text ∧
        Lexeme.ofText? (String.ofList text) = some [.ident name span] ∧
        Reader.isName name = true ∧ v = .method name) ∨
      ∃ path ls, Lexeme.ofText? (String.ofList s) = some ls ∧
        (Reader.path (.ofLexemes ls)).run ls = some (path, []) ∧ v = .function path := by
  unfold entry? at h
  split at h
  next => cases h
  next text =>
    obtain ⟨name, hread, rfl⟩ := Option.map_eq_some_iff.mp h
    obtain ⟨ls, htext, hrun⟩ := Reader.exists_of_ofText? hread
    obtain ⟨hname, span, rfl⟩ := Reader.of_run_ident hrun
    exact .inl ⟨text, name, span, rfl, htext, hname, rfl⟩
  next =>
    obtain ⟨path, hread, rfl⟩ := Option.map_eq_some_iff.mp h
    obtain ⟨ls, htext, hrun⟩ := Reader.exists_of_ofText? hread
    exact .inr ⟨path, ls, htext, hrun, rfl⟩

end Chain

/-! ## Calls -/

/-- The type in front of a method, if there is one, is read. -/
def Phrases.Receives (p : Phrases) : Receiver → Prop
  | .value => True
  | .type ty => p.ReadsType ty

/-- The tokens are a call of the path with the value. -/
def Phrases.IsCall (p : Phrases) (path : Path) (value ts : List Token) : Prop :=
  ∃ ls, Lexeme.tokens ls = ts ∧ p.ReadsCall path value ls

/-- What the function of the entry `s` is, and when the code that calls it is a call. -/
structure Path.Emits (p : Phrases) (value : List Token) (s : List Char) (path : Path) : Prop where
  /-- The path is the whole entry, read in a type. Read in an expression, the entry is the path
  exactly if `::` stands in front of all its arguments. -/
  read : ∃ ls, Lexeme.ofText? (String.ofList s) = some ls ∧
    (Reader.path (.ofLexemes ls)).run ls = some (path, []) ∧
    ((Reader.pathIn (.ofLexemes ls) true).run ls = some (path, []) ↔ path.inExpression = true)
  angled : ∀ g ∈ path.segments, ∀ ts, g.arguments ≠ .parenthesized ts
  /-- Without `::` in front of arguments, and for the lone word `try`, nothing is a call. -/
  refused : path.inExpression = false ∨ path = .loneTry → ∀ ts, ¬ p.IsCall path value ts
  /-- Otherwise the code is a call, if the arguments of the names are read back. -/
  called : path.inExpression = true → path ≠ .loneTry →
    (∀ g ∈ path.segments, p.ReadsArguments g.arguments) →
      p.IsCall path value (path.tokens ++ [Token.parens value])

/-- What the validator of the entry `s` is, and when the code that calls it is a call. -/
def Validator.Emits (p : Phrases) (reach : Reach) (s : List Char) : Validator → Prop
  | .method name => (∃ text span, s = '.' :: text ∧
        Lexeme.ofText? (String.ofList text) = some [.ident name span]) ∧
      ∀ receiver, p.Receives receiver →
        p.IsExpression ((Validator.method name).call reach receiver).tokens
  | .function path => path.Emits p reach.tokens s ∧
      ∀ receiver, ((Validator.function path).call reach receiver).tokens =
        path.tokens ++ [Token.parens reach.tokens]

variable {p : Phrases} {inner : List Lexeme} {reach : Reach}

theorem Phrases.IsCall.isExpression {path : Path} {value : List Token}
    (h : p.IsCall path value (path.tokens ++ [Token.parens value])) :
    p.IsExpression (path.tokens ++ [Token.parens value]) := by
  obtain ⟨ls, hwritten, hcall⟩ := h
  exact ⟨ls, hwritten, hcall.whole⟩

theorem Validator.emits_method {name : Ident} {text : List Char} {span : Span}
    (hvalue : p.ReadsValue inner reach.tokens) (hname : Reader.isName name = true)
    (htext : Lexeme.ofText? (String.ofList text) = some [.ident name span]) :
    (Validator.method name).Emits p reach ('.' :: text) := by
  refine ⟨⟨text, span, rfl, htext⟩, fun receiver hreceiver => ?_⟩
  cases receiver with
  | value => exact Reader.isExpression_method hvalue hname
  | type ty => exact Reader.isExpression_associated hvalue hname hreceiver

theorem Path.emits {path : Path} {s : List Char} {ls : List Lexeme} {value : List Token}
    (hvalue : p.ReadsValue inner value) (htext : Lexeme.ofText? (String.ofList s) = some ls)
    (hread : (Reader.path (.ofLexemes ls)).run ls = some (path, [])) :
    path.Emits p value s := by
  refine ⟨⟨ls, htext, hread, Reader.run_pathIn_iff hread⟩, ?_, ?_, ?_⟩
  · intro g hg ts hts
    rcases Reader.arguments_of_run_path hread g hg with hform | ⟨items, trailing, hbare⟩
    · rw [hts] at hform
      cases hform
    · rw [hts] at hbare
      cases hbare
  · rintro hbad ts ⟨ls', -, hcall⟩
    rcases hbad with hform | hlone
    · exact Bool.false_ne_true (hform.symm.trans hcall.inExpression)
    · exact hcall.ne_loneTry hlone
  · intro hform hne harguments
    have hnames := Reader.wellNamed_of_run_pathIn ((Reader.run_pathIn_iff hread).mpr hform)
    obtain ⟨ls', hwritten, hback⟩ := Reader.exists_run_pathIn hnames harguments
    have htokens : Lexeme.tokens (ls' ++ [.group .parenthesis inner .nowhere .nowhere]) =
        path.tokens ++ [Token.parens value] := by
      rw [Reader.tokens_append, hwritten, ← hvalue.written]
      rfl
    exact ⟨_, htokens, Reader.readsCall_of_run_pathIn (hback true _ rfl rfl) hvalue hne⟩

theorem Chain.emits_of_entry? {s : List Char} {v : Validator}
    (hvalue : p.ReadsValue inner reach.tokens) (h : Chain.entry? s = some v) :
    v.Emits p reach s := by
  rcases Chain.entry?_cases h with ⟨text, name, span, rfl, htext, hname, rfl⟩ |
    ⟨path, ls, htext, hread, rfl⟩
  · exact Validator.emits_method hvalue hname htext
  · exact ⟨Path.emits hvalue htext hread, fun receiver => by cases receiver <;> rfl⟩

/-- **Chains and their calls.** A chain is refused at its first entry that names no validator.
Otherwise it has one validator for each entry, and each statement that is emitted for it calls the
validator of an entry. -/
theorem Chain.parse_calls (chain : String) {c : Context}
    (hvalue : p.ReadsValue inner c.reach.tokens) :
    (∀ e, Chain.parse chain = .error e ↔
      ∃ s, (Chain.pieces chain).find? (!Chain.isNamed ·) = some s ∧
        e = .invalidValidator (String.ofList s) chain) ∧
    ∀ vs, Chain.parse chain = .ok vs → (Chain.pieces chain).map Chain.entry? = vs.map some ∧
      ∀ receiver scope, ∀ st ∈ (vs.emit c receiver scope).1,
        ∃ s ∈ Chain.pieces chain, ∃ v, Chain.entry? s = some v ∧
          st = .call (v.call c.reach receiver) c.field ∧ v.Emits p c.reach s := by
  refine ⟨fun e => Chain.entries_eq_error, fun vs hparse => ?_⟩
  have hentries : (Chain.pieces chain).map Chain.entry? = vs.map some := Chain.entries_eq_ok hparse
  refine ⟨hentries, fun receiver scope st hst => ?_⟩
  obtain ⟨v, hv, rfl⟩ := List.mem_map.mp hst
  have hmem : some v ∈ (Chain.pieces chain).map Chain.entry? := by
    rw [hentries]
    exact List.mem_map_of_mem hv
  obtain ⟨s, hs, hentry⟩ := List.mem_map.mp hmem
  exact ⟨s, hs, v, hentry, rfl, Chain.emits_of_entry? hvalue hentry⟩

/-- Where the value is `self`, a method and a path with `::` in front of its argument are called by
expressions, with either receiver. Without `::`, the path is accepted and not called. -/
theorem Chain.parse_calls_checks :
    let p := Phrases.ofDepth 1
    let self := Context.root.reach.tokens
    p.ReadsValue [.ident (.ofName "self") .nowhere] self ∧
    (∃ vs, Chain.parse ".check; Vec::<u8>::check" = .ok vs ∧
      ∀ receiver, receiver = .value ∨ receiver = .type selfTy →
        ∀ st ∈ (vs.emit .root receiver .empty).1, ∃ call, st = .call call "" ∧
          p.IsExpression call.tokens) ∧
    ∃ vs, Chain.parse "Vec<u8>::check" = .ok vs ∧
      ∀ st ∈ (vs.emit .root .value .empty).1, ∃ path,
        st = .call (.function path Context.root.reach) "" ∧ ∀ ts, ¬ p.IsCall path self ts := by
  intro p self
  have hvalue : p.ReadsValue [.ident (.ofName "self") .nowhere] self :=
    Reader.readsValue_name 0 rfl (by decide)
  refine ⟨hvalue, ?_, ?_⟩
  · have ⟨vs, hvs⟩ : ∃ vs, Chain.parse ".check; Vec::<u8>::check" = .ok vs :=
      Chain.exists_parse_eq_ok (by decide +kernel)
    refine ⟨vs, hvs, fun receiver hreceiver st hst => ?_⟩
    have hreceives : p.Receives receiver := by
      rcases hreceiver with rfl | rfl
      · trivial
      · exact Reader.readsType_name 0 rfl (by decide)
    let isSimple : Validator → Bool
      | .method _ => true
      | .function path => path.segments.length = 2 && path.segments.all (·.arguments.isSimple) &&
        path.inExpression
    have hsimple : ∀ s ∈ Chain.pieces ".check; Vec::<u8>::check",
        (Option.all isSimple <| Chain.entry? s) = true := List.all_eq_true.mp (by decide +kernel)
    obtain ⟨s, hs, v, hentry, rfl, hemits⟩ :=
      ((Chain.parse_calls _ hvalue).2 vs hvs).2 receiver _ st hst
    refine ⟨_, rfl, ?_⟩
    have hs := hsimple s hs
    rw [hentry] at hs
    cases v with
    | method name => exact hemits.2 receiver hreceives
    | function path =>
      obtain ⟨hs, hform⟩ := Bool.and_eq_true_iff.mp hs
      obtain ⟨hlength, harguments⟩ := Bool.and_eq_true_iff.mp hs
      rw [hemits.2]
      refine (hemits.1.called hform ?_ fun g hg => ?_).isExpression
      · rintro rfl
        cases hlength
      · exact Phrases.readsArguments_of_isSimple 0 (List.all_eq_true.mp harguments g hg)
  · have ⟨vs, hvs⟩ : ∃ vs, Chain.parse "Vec<u8>::check" = .ok vs :=
      Chain.exists_parse_eq_ok (by decide +kernel)
    refine ⟨vs, hvs, fun st hst => ?_⟩
    let isBare : Validator → Bool
      | .method _ => false
      | .function path => !path.inExpression
    have hbare : ∀ s ∈ Chain.pieces "Vec<u8>::check",
        (Option.all isBare <| Chain.entry? s) = true := List.all_eq_true.mp (by decide +kernel)
    obtain ⟨s, hs, v, hentry, rfl, hemits⟩ := ((Chain.parse_calls _ hvalue).2 vs hvs).2 _ _ st hst
    have hs := hbare s hs
    rw [hentry] at hs
    cases v with
    | method name => cases hs
    | function path =>
      exact ⟨path, rfl, hemits.1.refused (.inl (Bool.not_eq_true' _ ▸ hs))⟩

/-- The chains `Vec<u8>::check` and `try` are accepted, but the code that is emitted for them is no
expression. With `::` in front of the arguments it is one. -/
theorem Chain.parse_miscalls :
    let code (chain : String) := (Chain.parse chain).toOption.map fun vs =>
      vs.map fun v => Token.render (v.call (.binding "value") .value).tokens
    let isExpression (text : String) :=
      (Reader.ofText? (fun p => Reader.expression p true) text).isSome
    (code "Vec<u8>::check" = some ["Vec < u8 > :: check (value)"] ∧
      isExpression "Vec < u8 > :: check (value)" = false) ∧
    (code "try" = some ["try (value)"] ∧ isExpression "try (value)" = false) ∧
    code "Vec::<u8>::check" = some ["Vec :: < u8 > :: check (value)"] ∧
      isExpression "Vec :: < u8 > :: check (value)" = true := by
  decide +kernel

end FieldRules
