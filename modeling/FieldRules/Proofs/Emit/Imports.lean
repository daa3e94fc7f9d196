import Mathlib.Logic.Relation
import FieldRules.Emit.Routine
import FieldRules.Proofs.Emit.Hygiene

/-!
# The imports of a routine

A routine imports the symbols that its scope records, and the code of the checks names them without
a path. Recording is a side effect of emission: it happens where a guard or call is put together,
before it is known whether a loop or pattern around it is kept. That the imports are right says that
no record is too many and none is missing.

What the code names is read off its tokens. `heads` are the identifiers that begin a name. The
expressions, validators and types that the code is given are not its own, so they are left out
(`Statement.bare`) before the heads are read. Every kind of statement names the same symbols
wherever it stands (`words_guard`, `words_delegate`, `words_call`), or those of its body;
`Records` says that code names what is recorded along with it, and is kept by putting code side by
side and by loops and patterns around it. What an import lists is said of its tokens, apart from the
code that emits it (`Imports`).
-/

namespace FieldRules

open Token (op rooted parens braces)

/-! ## Names without a path -/

/-- What comes before a token, as far as it lets an identifier go on a longer name. -/
inductive Lead where
  /-- Nothing that a name goes on from. -/
  | none
  /-- The first mark of `::`. -/
  | colon
  /-- A `.` or `::`. -/
  | joined
deriving DecidableEq

/-- What comes before the next token. -/
def Lead.next : Lead → Token → Lead
  | colon, .punct ':' _ => joined
  | _, .punct ':' true => colon
  | _, .punct '.' _ => joined
  | _, _ => none

mutual

/-- The identifiers in a token that begin a name. -/
def Token.heads (lead : Lead) : Token → List String
  | .ident name => if lead = .joined then [] else [name]
  | .literal _ => []
  | .punct .. => []
  | .group _ inner => headsAfter .none inner

/-- The identifiers that begin a name, in tokens after others. -/
def headsAfter (lead : Lead) : List Token → List String
  | [] => []
  | t :: ts => t.heads lead ++ headsAfter (lead.next t) ts

end

/-- The identifiers that begin a name, in order. -/
def heads (ts : List Token) : List String := headsAfter .none ts

theorem headsAfter_append (lead : Lead) (ts us : List Token) :
    headsAfter lead (ts ++ us) = headsAfter lead ts ++ headsAfter (ts.foldl Lead.next lead) us := by
  induction ts generalizing lead with
  | nil => rfl
  | cons t ts ih =>
    rw [List.cons_append, headsAfter, headsAfter, ih, List.foldl_cons, List.append_assoc]

theorem heads_block_append (ts inner us : List Token) :
    heads ((ts ++ [braces inner]) ++ us) = heads (ts ++ [braces inner]) ++ heads us := by
  have hlead : (ts ++ [braces inner]).foldl Lead.next .none = .none := by
    rw [List.foldl_append]
    cases ts.foldl Lead.next .none <;> rfl
  rw [heads, headsAfter_append, hlead]
  rfl

/-! ## What the code is given -/

/-- Nothing in the place of an expression. -/
def Reach.blank : Reach := .given []

/-- The test, without the expression that it looks at. -/
def Test.bare : Test → Test
  | wide side limit => .wide side limit
  | float side _ limit => .float side .blank limit
  | length side limit => .length side limit
  | size side _ limit => .size side .blank limit
  | absent _ => .absent .blank

/-- The call, without the validator and the expressions that it is made of. -/
def Call.bare : Call → Call
  | method _ _ => .method (.ofName "_") .blank
  | associated _ _ _ => .associated (.other []) (.ofName "_") .blank
  | function _ _ => .function ⟨false, []⟩ .blank

mutual

/-- The statement, without the expressions, validators and types that it is given. -/
def Statement.bare : Statement → Statement
  | .guard test failure => .guard test.bare failure
  | .widen _ body => .widen .blank (bareAll body)
  | .measure _ body => .measure .blank (bareAll body)
  | .forEach item _ body => .forEach item .blank (bareAll body)
  | .forEntries key val _ body => .forEntries key val .blank (bareAll body)
  | .ifPresent inner _ body => .ifPresent inner .blank (bareAll body)
  | .matchPresent inner _ body failure => .matchPresent inner .blank (bareAll body) failure
  | .delegate _ field => .delegate .blank field
  | .call call field => .call call.bare field

/-- The statements, without what they are given. -/
def bareAll : List Statement → List Statement
  | [] => []
  | s :: ss => s.bare :: bareAll ss

end

/-! ## The words of an import -/

/-- Whether the word is the keyword of an import or the name of a symbol. -/
def isImportWord (name : String) : Bool :=
  decide (name ∈ "use" :: Symbol.all.map Symbol.name)

/-- The words of imports among the identifiers that begin a name, in order. -/
def words (ts : List Token) : List String := (heads ts).filter isImportWord

theorem isImportWord_symbol (a : Symbol) : isImportWord a.name = true := by
  cases a <;> rfl

/-- No word of an import begins as a minted name does. -/
theorem isImportWord_of_isMinted {name : String} (h : isMinted name = true) :
    isImportWord name = false := by
  rw [Bool.eq_false_iff]
  intro hw
  have hplain : ∀ word ∈ "use" :: Symbol.all.map Symbol.name,
      Names.letter word ∉ Names.letters := by decide
  rw [isMinted_eq_false (hplain name (of_decide_eq_true hw))] at h
  cases h

theorem words_append_block (ts inner : List Token) :
    words (ts ++ [braces inner]) = words ts ++ words inner := by
  have hinner : headsAfter (ts.foldl Lead.next .none) [braces inner] = heads inner := by
    simp [headsAfter, Token.heads, braces, heads]
  rw [words, heads, headsAfter_append, hinner, List.filter_append]
  rfl

theorem words_block_append (ts inner us : List Token) :
    words ((ts ++ [braces inner]) ++ us) = words (ts ++ [braces inner]) ++ words us := by
  rw [words, heads_block_append, List.filter_append]
  rfl

theorem words_block (inner : List Token) : words [braces inner] = words inner :=
  words_append_block [] inner

theorem words_failure (f : Failure) : words f.tokens = ["ValidationError", "Violation"] := by
  obtain ⟨field, violation⟩ := f
  cases violation <;> rfl

/-- Limits differ in their signs and digits only. -/
theorem words_test (test : Test) : words ([.ident "if"] ++ test.bare.tokens) = [] := by
  cases test with
  | wide side limit =>
    have hlimit : Token.integer limit = op "-" ++ [Token.number limit.natAbs] ∨
        Token.integer limit = [Token.number limit.natAbs] := by
      unfold Token.integer
      split
      · exact .inl rfl
      · exact .inr rfl
    simp only [Test.bare, Test.tokens]
    rcases hlimit with h | h <;> rw [h] <;> cases side <;> rfl
  | float side value limit =>
    have hlimit : limit.tokens = op "-" ++ [.literal limit.magnitudeText] ∨
        limit.tokens = [.literal limit.magnitudeText] := by
      unfold Floating.tokens
      split
      next =>
        split
        · exact .inr rfl
        · exact .inl rfl
      next => exact .inl rfl
      next => exact .inr rfl
    simp only [Test.bare, Test.tokens]
    rcases hlimit with h | h <;> rw [h] <;> cases side <;> rfl
  | length side limit => cases side <;> rfl
  | size side value limit => cases side <;> rfl
  | absent value => rfl

/-! ## Statements -/

theorem words_guard (test : Test) (failure : Failure) :
    words (Statement.guard test failure).bare.tokens = ["ValidationError", "Violation"] := by
  rw [Statement.bare, Statement.tokens, words_append_block, words_test, words_failure]
  rfl

theorem words_widen (value : Reach) (body : List Statement) :
    words (Statement.widen value body).bare.tokens = words (code (bareAll body)) := by
  rw [Statement.bare, Statement.tokens, words_block]
  rfl

theorem words_measure (value : Reach) (body : List Statement) :
    words (Statement.measure value body).bare.tokens = words (code (bareAll body)) := by
  rw [Statement.bare, Statement.tokens, words_block]
  rfl

/-- Tokens before a body that begin no name which an import has. -/
theorem words_before {ts : List Token} {names body : List String}
    (h : ∀ name ∈ names, isImportWord name = false) (hheads : heads ts = names) :
    words ts ++ body = body := by
  have hnone : words ts = [] := by
    refine List.filter_eq_nil_iff.mpr fun name hname => ?_
    rw [h name (hheads ▸ hname)]
    exact Bool.false_ne_true
  rw [hnone, List.nil_append]

theorem words_forEach {item : String} (h : isImportWord item = false) (value : Reach)
    (body : List Statement) :
    words (Statement.forEach item value body).bare.tokens = words (code (bareAll body)) := by
  have hnames : ∀ name ∈ ["for", item, "in"], isImportWord name = false := by
    simp only [List.forall_mem_cons, h, true_and]
    decide
  rw [Statement.bare, Statement.tokens, words_append_block]
  exact words_before hnames rfl

theorem words_forEntries {key val : Option String}
    (hk : ∀ x ∈ key, isImportWord x = false) (hv : ∀ x ∈ val, isImportWord x = false)
    (value : Reach) (body : List Statement) :
    words (Statement.forEntries key val value body).bare.tokens = words (code (bareAll body)) := by
  have hpart : ∀ part : Option String, (∀ x ∈ part, isImportWord x = false) →
      isImportWord (part.getD "_") = false := by
    intro part h
    cases part with
    | none => rfl
    | some x => exact h x rfl
  have hnames : ∀ name ∈ ["for", key.getD "_", val.getD "_", "in"],
      isImportWord name = false := by
    simp only [List.forall_mem_cons, hpart key hk, hpart val hv, true_and]
    decide
  rw [Statement.bare, Statement.tokens, words_append_block]
  exact words_before hnames rfl

theorem words_ifPresent {inner : String} (h : isImportWord inner = false) (value : Reach)
    (body : List Statement) :
    words (Statement.ifPresent inner value body).bare.tokens = words (code (bareAll body)) := by
  have hnames : ∀ name ∈ ["if", "let", inner], isImportWord name = false := by
    simp only [List.forall_mem_cons, h, true_and]
    decide
  rw [Statement.bare, Statement.tokens, ifLet, words_append_block]
  exact words_before hnames rfl

theorem words_matchPresent {inner : String} (h : isImportWord inner = false) (value : Reach)
    (body : List Statement) (failure : Failure) :
    words (Statement.matchPresent inner value body failure).bare.tokens =
      words (code (bareAll body)) ++ ["ValidationError", "Violation"] := by
  have hnames : ∀ name ∈ [inner], isImportWord name = false := by
    simp only [List.forall_mem_cons, h, true_and]
    decide
  have hmatch : words ([.ident "match"] ++ Reach.blank.tokens) = [] := rfl
  have hnone : words (rooted ["core", "option", "Option", "None"] ++ op "=>") = [] := rfl
  rw [Statement.bare, Statement.tokens, words_append_block, hmatch, words_append_block,
    words_failure, List.append_assoc _ (rooted ["core", "option", "Option", "None"]),
    words_block_append, hnone, List.append_nil, words_append_block, List.nil_append]
  congr 1
  exact words_before hnames rfl

theorem words_delegate (value : Reach) (field : String) :
    words (Statement.delegate value field).bare.tokens = ["Validate"] :=
  rfl

theorem words_call (call : Call) (field : String) :
    words (Statement.call call field).bare.tokens = ["ValidationError"] := by
  cases call <;> rfl

/-- The words of imports in the statements' own code, in order. -/
def importWords (ss : List Statement) : List String := words (code (bareAll ss))

theorem importWords_cons (t : Statement) (ss : List Statement) :
    importWords (t :: ss) = words t.bare.tokens ++ importWords ss := by
  obtain ⟨ts, inner, h⟩ := t.bare.exists_block
  rw [importWords, bareAll, code, h, words_block_append]
  rfl

theorem importWords_append (ss us : List Statement) :
    importWords (ss ++ us) = importWords ss ++ importWords us := by
  induction ss with
  | nil => rfl
  | cons t ss ih =>
    rw [List.cons_append, importWords_cons, ih, importWords_cons, List.append_assoc]

theorem importWords_singleton (t : Statement) : importWords [t] = words t.bare.tokens := by
  rw [importWords_cons]
  exact List.append_nil _

theorem mem_importWords {name : String} {ss : List Statement} :
    name ∈ importWords ss ↔ ∃ t ∈ ss, name ∈ words t.bare.tokens := by
  induction ss with
  | nil =>
    refine ⟨fun h => (nomatch h), ?_⟩
    rintro ⟨t, ht, -⟩
    cases ht
  | cons t ss ih =>
    simp only [importWords_cons, List.mem_append, ih, List.mem_cons, exists_eq_or_imp]

/-! ## Records -/

theorem Symbol.name_inj {a b : Symbol} (h : a.name = b.name) : a = b := by
  cases a <;> cases b <;> first | rfl | exact absurd h (by decide)

/-- Between `s` and `s'`, exactly the symbols that the statements name are recorded. -/
structure Records (s s' : Scope) (ss : List Statement) : Prop where
  /-- A symbol is recorded if it was before or is named. -/
  exact : ∀ a, s'.symbols.contains a = true ↔ s.symbols.contains a = true ∨ a.name ∈ importWords ss
  /-- Every word of an import is the name of a symbol. -/
  named : ∀ name ∈ importWords ss, ∃ a : Symbol, a.name = name
  /-- Every statement names a symbol. -/
  filled : ∀ t ∈ ss, words t.bare.tokens ≠ []

namespace Records

variable {s s₁ s₂ : Scope} {ss us : List Statement}

theorem nil (s : Scope) : Records s s [] where
  exact := fun _ => ⟨.inl, fun h => h.resolve_right (fun h => nomatch h)⟩
  named := fun _ h => (nomatch h)
  filled := fun _ h => (nomatch h)

/-- Minting a name records nothing. -/
theorem of_minted {stem : String} (h : Records (s.minted stem) s₁ ss) : Records s s₁ ss :=
  ⟨h.exact, h.named, h.filled⟩

/-- Code side by side. -/
theorem append (h : Records s s₁ ss) (h' : Records s₁ s₂ us) : Records s s₂ (ss ++ us) where
  exact := fun a => by
    rw [h'.exact, h.exact, importWords_append, List.mem_append, or_assoc]
  named := fun name hname => by
    rw [importWords_append, List.mem_append] at hname
    rcases hname with hname | hname
    · exact h.named name hname
    · exact h'.named name hname
  filled := fun t ht => by
    rcases List.mem_append.mp ht with ht | ht
    · exact h.filled t ht
    · exact h'.filled t ht

/-- Statements that all name the symbols `as`, which are recorded if there is any statement. -/
theorem uniform {as : List Symbol} (has : as ≠ [])
    (h : ∀ t ∈ ss, words t.bare.tokens = as.map Symbol.name)
    (hs : ∀ a, s₁.symbols.contains a = true ↔
      s.symbols.contains a = true ∨ (ss ≠ [] ∧ a ∈ as)) :
    Records s s₁ ss where
  exact := fun a => by
    have hword : a.name ∈ importWords ss ↔ ss ≠ [] ∧ a ∈ as := by
      rw [mem_importWords]
      constructor
      · rintro ⟨t, ht, ha⟩
        rw [h t ht] at ha
        obtain ⟨b, hb, hname⟩ := List.mem_map.mp ha
        exact ⟨List.ne_nil_of_mem ht, Symbol.name_inj hname ▸ hb⟩
      · rintro ⟨hne, ha⟩
        obtain ⟨t, ht⟩ := List.exists_mem_of_ne_nil ss hne
        exact ⟨t, ht, h t ht ▸ List.mem_map_of_mem ha⟩
    rw [hs, hword]
  named := fun name hname => by
    obtain ⟨t, ht, hname⟩ := mem_importWords.mp hname
    rw [h t ht] at hname
    obtain ⟨a, -, ha⟩ := List.mem_map.mp hname
    exact ⟨a, ha⟩
  filled := fun t ht hnil => by
    rw [h t ht, List.map_eq_nil_iff] at hnil
    exact has hnil

/-- A block, loop or pattern that names what its body names. -/
theorem unlessEmpty {wrap : List Statement → Statement}
    (hw : ∀ body, words (wrap body).bare.tokens = importWords body) (h : Records s s₁ ss) :
    Records s s₁ (unlessEmpty wrap ss) := by
  cases ss with
  | nil => exact h
  | cons t ss =>
    have hwords : importWords [wrap (t :: ss)] = importWords (t :: ss) := by
      rw [importWords_singleton, hw]
    refine ⟨fun a => ?_, fun name hname => ?_, fun u hu hnil => ?_⟩
    · rw [h.exact, ← hwords]
      rfl
    · exact h.named name (hwords ▸ hname)
    · cases List.mem_singleton.mp hu
      rw [hw, importWords_cons] at hnil
      exact h.filled t List.mem_cons_self (List.append_eq_nil_iff.mp hnil).1

/-- A guard or pattern that returns a failure, after its body. -/
theorem failing {t : Statement}
    (hw : words t.bare.tokens = importWords ss ++ ["ValidationError", "Violation"])
    (h : Records s s₁ ss) : Records s s₁.requireFailure [t] := by
  have hwords : ∀ name, name ∈ importWords [t] ↔
      name ∈ importWords ss ∨ name ∈ ["ValidationError", "Violation"] := by
    intro name
    rw [importWords_singleton, hw, List.mem_append]
  refine ⟨fun a => ?_, fun name hname => ?_, fun u hu hnil => ?_⟩
  · have hfailure : s₁.requireFailure.symbols.contains a = true ↔
        s₁.symbols.contains a = true ∨ a.name ∈ ["ValidationError", "Violation"] := by
      cases a <;>
        simp [Scope.requireFailure, Scope.require, Symbols.insert, Symbols.contains, Symbol.name]
    rw [hfailure, h.exact, hwords, or_assoc]
  · rcases (hwords name).mp hname with hname | hname
    · exact h.named name hname
    · rcases List.mem_cons.mp hname with rfl | hname
      · exact ⟨.validationError, rfl⟩
      · exact ⟨.violation, (List.mem_singleton.mp hname).symm⟩
  · cases List.mem_singleton.mp hu
    rw [hw] at hnil
    exact absurd (List.append_eq_nil_iff.mp hnil).2 (List.cons_ne_nil _ _)

end Records

/-! ## Emission -/

section Leaves

variable (c : Context) (s : Scope)

theorem records_emitLimits {α : Type} (limits : Limits (Bound α)) (test : Side → α → Test)
    (lower upper : Bound α → Violation) (field : String) :
    Records s (emitLimits limits test lower upper field s).2
      (emitLimits limits test lower upper field s).1 := by
  refine .uniform (List.cons_ne_nil .validationError [.violation]) (fun t ht => ?_) fun a => ?_
  · obtain ⟨side, b, failure, rfl⟩ := exists_of_mem_emitLimits s limits test lower upper field ht
    exact words_guard _ _
  · obtain ⟨low, high⟩ := limits
    cases low <;> cases high <;> cases a <;>
      simp [emitLimits, Limits.isNone, Scope.requireFailure, Scope.require, Symbols.insert,
        Symbols.contains]

theorem records_chain (chain : Chain) (receiver : Receiver) :
    Records s (chain.emit c receiver s).2 (chain.emit c receiver s).1 := by
  refine .uniform (List.cons_ne_nil .validationError []) (fun t ht => ?_) fun a => ?_
  · obtain ⟨v, -, rfl⟩ := List.mem_map.mp ht
    exact words_call _ _
  · cases chain <;> cases a <;>
      simp [Chain.emit, Scope.require, Symbols.insert, Symbols.contains]

theorem records_scalarCheck (check : ScalarCheck) :
    Records s (check.emit c s).2 (check.emit c s).1 := by
  cases check with
  | integer range =>
    rw [ScalarCheck.emit_integer]
    exact (records_emitLimits s _ _ _ _ _).unlessEmpty (words_widen c.reach)
  | float range => exact records_emitLimits s _ _ _ _ _
  | string length =>
    rw [ScalarCheck.emit_string]
    exact (records_emitLimits s _ _ _ _ _).unlessEmpty (words_measure c.reach)
  | byte => exact .nil s
  | bool => exact .nil s

end Leaves

namespace Plan

theorem records_presence {s s' : Scope} {body : List Statement} (h : Records s s' body)
    (nullable : Bool) {name : String} (hname : isImportWord name = false) (c : Context) :
    Records s (if nullable then s' else s'.requireFailure) (presence nullable name c body) := by
  cases nullable with
  | true => exact h.unlessEmpty fun body => words_ifPresent hname c.reach body
  | false =>
    cases body with
    | nil => exact h.failing (words_guard _ _)
    | cons t ss => exact h.failing (words_matchPresent hname c.reach (t :: ss) _)

theorem records_emitFields {fields : List (Field Plan)}
    (h : ∀ f ∈ fields, ∀ (c : Context) (s : Scope),
      Records s (f.node.emit c s).2 (f.node.emit c s).1) (c : Context) (s : Scope) :
    Records s (emitFields fields c s).2 (emitFields fields c s).1 := by
  induction fields generalizing s with
  | nil => exact .nil s
  | cons f fields ih =>
    rw [emitFields_cons]
    exact (h f List.mem_cons_self _ s).append
      (ih (fun g hg => h g (List.mem_cons_of_mem f hg)) _)

/-- Emission records exactly what the emitted code names. -/
theorem records_emit (p : Plan) (c : Context) (s : Scope) :
    Records s (p.emit c s).2 (p.emit c s).1 := by
  have hminted : ∀ stem ∈ Names.stems, ∀ names : Names,
      isImportWord (names.mint stem).1 = false := fun stem hstem names =>
    isImportWord_of_isMinted (isMinted_mint hstem names)
  induction p using Plan.induct generalizing c s with
  | scalar check chain =>
    rw [emit_scalar]
    exact (records_scalarCheck c s check).append (records_chain c _ chain .value)
  | optional nullable inner ih =>
    rw [emit_optional]
    exact records_presence (ih _ _).of_minted nullable (hminted presentStem (by decide) _) c
  | array size item ih =>
    rw [emit_array]
    refine (records_emitLimits s _ _ _ _ _).append ((ih _ _).of_minted.unlessEmpty fun body => ?_)
    exact words_forEach (hminted itemStem (by decide) _) _ body
  | map size key value ihk ihv =>
    rw [emit_map]
    refine (records_emitLimits s _ _ _ _ _).append
      (((ihk _ _).append (ihv _ _)).of_minted.of_minted.unlessEmpty fun body => ?_)
    refine words_forEntries (fun x hx => ?_) (fun x hx => ?_) _ body
    · rw [eq_of_mem_partName hx]
      exact hminted keyStem (by decide) _
    · rw [eq_of_mem_partName hx]
      exact hminted valueStem (by decide) _
  | inline fields chain ih =>
    rw [emit_inline]
    exact (records_emitFields ih c s).append (records_chain c _ chain .value)
  | delegated chain =>
    rw [emit_delegated]
    have hcall : Records s (s.require .validate) [.delegate c.reach c.field] := by
      refine .uniform (List.cons_ne_nil .validate []) (fun t ht => ?_) fun a => ?_
      · cases List.mem_singleton.mp ht
        exact words_delegate c.reach c.field
      · cases a <;> simp [Scope.require, Symbols.insert, Symbols.contains]
    exact hcall.append (records_chain c _ chain .value)
  | wrapper ty mode inner chain ih =>
    rw [emit_wrapper]
    exact (ih _ s).append (records_chain c _ chain (.type ty))
  | interface indirect chain =>
    rw [emit_interface]
    exact records_chain _ s chain .value
  | skip => exact .nil s

end Plan

/-! ## Parts of an emission -/

/-- The emission of code for a plan, in a context and from a scope. -/
structure Emission where
  plan : Plan
  context : Context
  scope : Scope

namespace Emission

/-- The code that is emitted. -/
def code (e : Emission) : List Statement := (e.plan.emit e.context e.scope).1

/-- What is named after it. -/
def after (e : Emission) : Scope := (e.plan.emit e.context e.scope).2

/-- The emission for a plan emits code for a part of the plan, in the scope that the code before it
leaves. -/
inductive Calls : Emission → Emission → Prop
  | inside {nullable inner c s} :
    Calls ⟨.optional nullable inner, c, s⟩
      ⟨inner, c.minted presentStem "" s.names, s.minted presentStem⟩
  | item {size item c s s'} (hs : s' = (emitSize size c s).2) :
    Calls ⟨.array size item, c, s⟩ ⟨item, c.minted itemStem "[]" s'.names, s'.minted itemStem⟩
  | key {size key value c s s'} (hs : s' = (emitSize size c s).2) :
    Calls ⟨.map size key value, c, s⟩
      ⟨key, c.minted keyStem "[key]" s'.names, (s'.minted keyStem).minted valueStem⟩
  | value {size key value c s s' sk} (hs : s' = (emitSize size c s).2)
    (hk : sk = (key.emit (c.minted keyStem "[key]" s'.names)
      ((s'.minted keyStem).minted valueStem)).2) :
    Calls ⟨.map size key value, c, s⟩
      ⟨value, c.minted valueStem "[value]" (s'.minted keyStem).names, sk⟩
  | field {before f others chain c s} :
    Calls ⟨.inline (before ++ f :: others) chain, c, s⟩
      ⟨f.node, c.member f.member f.name, (Plan.emitFields before c s).2⟩
  | wrapped {ty mode inner chain c s} :
    Calls ⟨.wrapper ty mode inner chain, c, s⟩ ⟨inner, Plan.wrapped c mode, s⟩

end Emission

theorem parts_subset_unlessEmpty {wrap : List Statement → Statement}
    (hparts : ∀ body, (wrap body).parts = wrap body :: parts body) (body : List Statement) :
    parts body ⊆ parts (unlessEmpty wrap body) := by
  cases body with
  | nil => exact List.nil_subset _
  | cons t ss =>
    have hparts : parts (unlessEmpty wrap (t :: ss)) = wrap (t :: ss) :: parts (t :: ss) :=
      (parts_singleton _).trans (hparts _)
    rw [hparts]
    exact List.subset_cons_self _ _

namespace Plan

theorem parts_subset_presence (nullable : Bool) (name : String) (c : Context)
    (body : List Statement) : parts body ⊆ parts (presence nullable name c body) := by
  cases nullable with
  | true => exact parts_subset_unlessEmpty (fun _ => rfl) body
  | false =>
    cases body with
    | nil => exact List.nil_subset _
    | cons t ss =>
      have hparts : parts (presence false name c (t :: ss)) =
          .matchPresent name c.reach (t :: ss) ⟨c.field, .missing⟩ :: parts (t :: ss) :=
        parts_singleton _
      rw [hparts]
      exact List.subset_cons_self _ _

theorem emitFields_append (fields others : List (Field Plan)) (c : Context) (s : Scope) :
    emitFields (fields ++ others) c s =
      let first := emitFields fields c s
      let rest := emitFields others c first.2
      (first.1 ++ rest.1, rest.2) := by
  induction fields generalizing s with
  | nil => rfl
  | cons f fields ih => simp only [List.cons_append, emitFields_cons, ih, List.append_assoc]

end Plan

namespace Emission

/-- No code for a part is left out. -/
theorem Calls.parts_subset {e e' : Emission} (h : Calls e e') : parts e'.code ⊆ parts e.code := by
  cases h with
  | inside =>
    unfold code
    rw [Plan.emit_optional]
    exact Plan.parts_subset_presence _ _ _ _
  | item hs =>
    subst hs
    unfold code
    rw [Plan.emit_array, parts_append]
    exact List.Subset.trans (parts_subset_unlessEmpty (fun _ => rfl) _)
      (List.subset_append_right _ _)
  | key hs =>
    subst hs
    unfold code
    rw [Plan.emit_map, parts_append]
    refine List.Subset.trans ?_ (List.Subset.trans (parts_subset_unlessEmpty (fun _ => rfl) _)
      (List.subset_append_right _ _))
    rw [parts_append]
    exact List.subset_append_left _ _
  | value hs hk =>
    subst hs hk
    unfold code
    rw [Plan.emit_map, parts_append]
    refine List.Subset.trans ?_ (List.Subset.trans (parts_subset_unlessEmpty (fun _ => rfl) _)
      (List.subset_append_right _ _))
    rw [parts_append]
    exact List.subset_append_right _ _
  | field =>
    unfold code
    rw [Plan.emit_inline, Plan.emitFields_append, parts_append, parts_append,
      Plan.emitFields_cons, parts_append]
    exact fun t ht => List.mem_append_left _ (List.mem_append_right _ (List.mem_append_left _ ht))
  | wrapped =>
    unfold code
    rw [Plan.emit_wrapper, parts_append]
    exact List.subset_append_left _ _

/-- No code for a part of a part, at any depth, is left out. -/
theorem parts_subset {e e' : Emission} (h : Relation.ReflTransGen Calls e e') :
    parts e'.code ⊆ parts e.code := by
  induction h with
  | refl => exact List.Subset.refl _
  | tail _ hstep ih => exact List.Subset.trans hstep.parts_subset ih

end Emission

/-! ## Routines -/

/-- The tokens list the names, with a comma between any two. -/
inductive Listing : List String → List Token → Prop
  | last (name : String) : Listing [name] [.ident name]
  | cons {name names ts} (h : Listing names ts) :
    Listing (name :: names) (.ident name :: .punct ',' false :: ts)

/-- The tokens import the names from the library: `use ::library::{name, name};`. -/
inductive Imports (runtime : Path) (names : List String) : List Token → Prop
  | intro {listing} (h : Listing names listing) :
    Imports runtime names (.ident "use" :: runtime.tokens ++
      [.punct ':' true, .punct ':' false, .group .brace listing, .punct ';' false])

theorem listing_commaSeparated (a : Symbol) (as : List Symbol) :
    Listing ((a :: as).map Symbol.name) (commaSeparated ((a :: as).map Symbol.token)) := by
  induction as generalizing a with
  | nil => exact .last a.name
  | cons b as ih => exact .cons (ih b)

/-- The statements name the symbol in their own code, without a path. -/
def Mentions (ss : List Statement) (a : Symbol) : Prop := a.name ∈ heads (code (bareAll ss))

theorem mentions_iff {ss : List Statement} {a : Symbol} :
    Mentions ss a ↔ a.name ∈ importWords ss := by
  rw [Mentions, importWords, words, List.mem_filter, isImportWord_symbol, and_iff_left rfl]

theorem Symbols.eq_none_iff {s : Symbols} : s = .none ↔ ∀ a, s.contains a = false := by
  constructor
  · rintro rfl a
    cases a <;> rfl
  · intro h
    obtain ⟨validate, validationError, violation⟩ := s
    exact congr (congr (congrArg Symbols.mk (h .validate)) (h .validationError)) (h .violation)

theorem Symbols.toList_eq_nil {s : Symbols} : s.toList = [] ↔ s = .none := by
  rw [eq_none_iff, List.eq_nil_iff_forall_not_mem]
  simp only [mem_toList, Bool.not_eq_true]

theorem Symbols.nodup_names (s : Symbols) : (s.toList.map Symbol.name).Nodup :=
  List.Nodup.sublist (List.filter_sublist.map Symbol.name) (by decide)

theorem Symbols.imports_of_ne_nil {s : Symbols} (h : s.toList ≠ []) (runtime : Path) :
    Imports runtime (s.toList.map Symbol.name) (s.imports runtime) := by
  unfold imports
  cases hs : s.toList with
  | nil => exact absurd hs h
  | cons a as =>
    simp only [List.append_assoc]
    exact @Imports.intro runtime _ _ (listing_commaSeparated a as)

namespace Records

variable {s s' : Scope} {ss : List Statement}

theorem mentions (h : Records s s' ss) (a : Symbol) :
    s'.symbols.contains a = true ↔ s.symbols.contains a = true ∨ Mentions ss a := by
  rw [h.exact, mentions_iff]

/-- Code that records nothing is empty. -/
theorem code_eq_nil_iff (h : Records s s' ss) (hs : s.symbols = .none) :
    code ss = [] ↔ s'.symbols = .none := by
  have hbefore : ∀ a, s.symbols.contains a = false := Symbols.eq_none_iff.mp hs
  rw [Symbols.eq_none_iff]
  constructor
  · intro hcode a
    cases ss with
    | nil =>
      rw [Bool.eq_false_iff, Ne, h.exact, hbefore]
      exact fun ha => ha.elim Bool.false_ne_true fun hword => nomatch hword
    | cons t us => exact absurd hcode (code_ne_nil (List.cons_ne_nil t us))
  · intro hafter
    cases ss with
    | nil => rfl
    | cons t us =>
      -- The words of the first statement are names of symbols, which would be recorded.
      obtain ⟨name, hname⟩ := List.exists_mem_of_ne_nil _ (h.filled t List.mem_cons_self)
      have hmem : name ∈ importWords (t :: us) :=
        mem_importWords.mpr ⟨t, List.mem_cons_self, hname⟩
      obtain ⟨a, rfl⟩ := h.named name hmem
      have hrecorded : s'.symbols.contains a = true := (h.exact a).mpr (.inr hmem)
      rw [hafter a] at hrecorded
      cases hrecorded

theorem use_not_mem (h : Records s s' ss) : "use" ∉ heads (code (bareAll ss)) := by
  intro huse
  have hword : "use" ∈ importWords ss := List.mem_filter.mpr ⟨huse, rfl⟩
  obtain ⟨a, ha⟩ := h.named "use" hword
  cases a <;> exact absurd ha (by decide)

end Records

namespace Plan

/-- **Imports are exact and minimal.** Emission records a symbol if it was recorded before or the
emitted code names it, at every node: the code for a part, however deep it is, is part of the
output, so that what the part records is named there. From no symbols, the code is empty if and
only if none is recorded. So a routine begins with one import, which lists each symbol that its
checks name once and no other, unless it has no checks and is empty. -/
theorem emit_imports (p : Plan) :
    (∀ (c : Context) (s : Scope) (a : Symbol),
      (p.emit c s).2.symbols.contains a = true ↔
        s.symbols.contains a = true ∨ Mentions (p.emit c s).1 a) ∧
    (∀ (c : Context) (s : Scope) (e : Emission),
      Relation.ReflTransGen Emission.Calls ⟨p, c, s⟩ e →
      parts e.code ⊆ parts (p.emit c s).1 ∧
        ∀ a, e.scope.symbols.contains a = false → e.after.symbols.contains a = true →
          Mentions e.code a) ∧
    (∀ (c : Context) (names : Names),
      code (p.emit c ⟨names, .none⟩).1 = [] ↔ (p.emit c ⟨names, .none⟩).2.symbols = .none) ∧
    ∀ runtime : Path, ∃ used : List Symbol,
      let checks := (p.emit .root .empty).1
      (used.map Symbol.name).Nodup ∧ (∀ a, a ∈ used ↔ Mentions checks a) ∧
      "use" ∉ heads (code (bareAll checks)) ∧
      ((code checks = [] ∧ used = [] ∧ p.body runtime = []) ∨
        (code checks ≠ [] ∧ used ≠ [] ∧ ∃ declaration,
          Imports runtime (used.map Symbol.name) declaration ∧
            p.body runtime = declaration ++ code checks)) := by
  refine ⟨fun c s a => (p.records_emit c s).mentions a, fun c s e he => ⟨?_, ?_⟩,
    fun c names => (p.records_emit c _).code_eq_nil_iff rfl, fun runtime => ?_⟩
  · exact Emission.parts_subset he
  · intro a hbefore hafter
    have hmentions := ((e.plan.records_emit e.context e.scope).mentions a).mp hafter
    exact hmentions.resolve_left (hbefore ▸ Bool.false_ne_true)
  · have h : Records .empty (p.emit .root .empty).2 (p.emit .root .empty).1 :=
      p.records_emit .root .empty
    refine ⟨(p.emit .root .empty).2.symbols.toList, Symbols.nodup_names _, fun a => ?_,
      h.use_not_mem, ?_⟩
    · have hempty : Scope.empty.symbols.contains a ≠ true := by cases a <;> decide
      rw [Symbols.mem_toList, h.mentions, or_iff_right hempty]
    · have hnone := (h.code_eq_nil_iff rfl).trans Symbols.toList_eq_nil.symm
      by_cases hcode : code (p.emit .root .empty).1 = []
      · have hbody : p.body runtime = [] := by
          have himports : (p.emit .root .empty).2.symbols.imports runtime = [] := by
            rw [Symbols.imports, hnone.mp hcode]
          rw [body]
          exact List.append_eq_nil_iff.mpr ⟨himports, hcode⟩
        exact .inl ⟨hcode, hnone.mp hcode, hbody⟩
      · have hused : (p.emit .root .empty).2.symbols.toList ≠ [] := fun h => hcode (hnone.mpr h)
        exact .inr ⟨hcode, hused, _, Symbols.imports_of_ne_nil hused runtime, rfl⟩

/-- A map of lists of values that check themselves, with plain keys. -/
def registryPlan : Plan :=
  .map .none (.scalar (.string .none) []) (.array .none (.delegated []))

theorem emit_imports_registry :
    let loop : Scope := (Scope.empty.minted keyStem).minted valueStem
    let list : Emission := ⟨.array .none (.delegated []),
      Context.root.minted valueStem "[value]" (Scope.empty.minted keyStem).names, loop⟩
    let element : Emission := ⟨.delegated [],
      list.context.minted itemStem "[]" loop.names, loop.minted itemStem⟩
    Relation.ReflTransGen Emission.Calls ⟨registryPlan, .root, .empty⟩ element ∧
      element.scope.symbols.contains .validate = false ∧
      element.after.symbols.contains .validate = true ∧
      parts element.code ⊆ parts (registryPlan.emit .root .empty).1 ∧
      Mentions element.code .validate ∧
      (registryPlan.emit .root .empty).2.symbols.toList = [.validate] := by
  intro loop list element
  have hcalls : Relation.ReflTransGen Emission.Calls ⟨registryPlan, .root, .empty⟩ element :=
    .tail (.tail .refl (.value rfl rfl)) (.item rfl)
  have h := (emit_imports registryPlan).2.1 .root .empty element hcalls
  exact ⟨hcalls, rfl, rfl, h.1, h.2 .validate rfl rfl, rfl⟩

end Plan

end FieldRules
