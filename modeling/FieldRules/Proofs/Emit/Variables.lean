import FieldRules.Emit.Checks
import FieldRules.Proofs.Emit.Names

/-!
# Minted names in code

The variables of code are its identifiers, except those behind a `.`, which name a field or a
method. `minted ts` are the variables of `ts` that begin as a minted name does. No word of the
emitted statements is one of them, so that a statement has the minted names of the expressions and
patterns in it and of its body: one equation for each kind of statement.
-/

namespace FieldRules

open Token (op rooted parens braces)

/-! ## Variables -/

/-- Whether an identifier that follows the token names a field or a method. -/
def Token.selects : Token → Bool
  | punct mark _ => mark = '.'
  | _ => false

/-- Whether the token is an identifier. -/
def Token.isIdent : Token → Bool
  | ident _ => true
  | _ => false

mutual

/-- The variables of a token that may be selected from what comes before it. -/
def Token.vars (selected : Bool) : Token → List String
  | .ident name => if selected then [] else [name]
  | .literal _ => []
  | .punct .. => []
  | .group _ inner => varsAfter false inner

/-- The variables of tokens of which the first may be selected from what comes before. -/
def varsAfter (selected : Bool) : List Token → List String
  | [] => []
  | t :: ts => t.vars selected ++ varsAfter t.selects ts

end

/-- The variables of tokens, in order. -/
def vars (ts : List Token) : List String := varsAfter false ts

/-- Whether what follows the tokens is selected from them. -/
def endsSelecting (selected : Bool) : List Token → Bool
  | [] => selected
  | t :: ts => endsSelecting t.selects ts

theorem varsAfter_append (selected : Bool) (ts us : List Token) :
    varsAfter selected (ts ++ us) =
      varsAfter selected ts ++ varsAfter (endsSelecting selected ts) us := by
  induction ts generalizing selected with
  | nil => rfl
  | cons t ts ih =>
    rw [List.cons_append, varsAfter, varsAfter, ih, endsSelecting, List.append_assoc]

/-- Only an identifier is selected from what comes before. -/
theorem varsAfter_of_not_ident (selected : Bool) {t : Token} (h : t.isIdent = false)
    (ts : List Token) : varsAfter selected (t :: ts) = vars (t :: ts) := by
  unfold vars
  rw [varsAfter, varsAfter]
  cases t with
  | ident name => cases h
  | literal text => rfl
  | punct mark joint => rfl
  | group delimiter inner => rfl

theorem vars_append_cons {t : Token} (h : t.isIdent = false) (ts us : List Token) :
    vars (ts ++ t :: us) = vars ts ++ vars (t :: us) := by
  rw [vars, varsAfter_append, varsAfter_of_not_ident _ h]
  rfl

theorem endsSelecting_append_singleton (selected : Bool) (ts : List Token) (t : Token) :
    endsSelecting selected (ts ++ [t]) = t.selects := by
  induction ts generalizing selected with
  | nil => rfl
  | cons u ts ih => rw [List.cons_append, endsSelecting, ih]

theorem vars_append_braces (ts inner us : List Token) :
    vars ((ts ++ [braces inner]) ++ us) =
      vars (ts ++ [braces inner]) ++ vars us := by
  unfold vars
  rw [varsAfter_append, endsSelecting_append_singleton]
  rfl

/-! ## Minted names -/

/-- Whether a name begins as a minted one does. -/
def isMinted (name : String) : Bool :=
  Names.stems.any fun stem => stem.toList.isPrefixOf name.toList

/-- What names that are kept for generated code begin with. -/
def reservedPrefix : String := "__tagval_"

/-- No variable of the tokens begins as a name that is kept for generated code. -/
def Free (ts : List Token) : Prop :=
  ∀ name ∈ vars ts, ¬ reservedPrefix.toList <+: name.toList

theorem isMinted_nth {stem : String} (h : stem ∈ Names.stems) (i : Nat) :
    isMinted (Names.nth stem i) = true := by
  refine List.any_eq_true.mpr ⟨stem, h, ?_⟩
  rw [List.isPrefixOf_iff_prefix]
  unfold Names.nth
  split
  · exact List.prefix_refl _
  · rw [String.toList_append]
    exact List.prefix_append _ _

/-- A name without the letter of a stem is not minted. -/
theorem isMinted_eq_false {name : String} (h : Names.letter name ∉ Names.letters) :
    isMinted name = false := by
  rw [Bool.eq_false_iff]
  intro hm
  obtain ⟨stem, hs, hp⟩ := List.any_eq_true.mp hm
  have hletter := Names.letter_of_isPrefix hs (List.isPrefixOf_iff_prefix.mp hp)
  exact h (hletter ▸ Names.letter_mem_letters stem hs)

theorem reserved_of_isMinted {name : String} (h : isMinted name = true) :
    reservedPrefix.toList <+: name.toList := by
  have hstems : ∀ stem ∈ Names.stems, reservedPrefix.toList <+: stem.toList := by decide
  obtain ⟨stem, hs, hp⟩ := List.any_eq_true.mp h
  exact (hstems stem hs).trans (List.isPrefixOf_iff_prefix.mp hp)

/-- The variables that begin as minted names do, in order. -/
def minted (ts : List Token) : List String := (vars ts).filter isMinted

theorem Free.minted {ts : List Token} (h : Free ts) : minted ts = [] := by
  refine List.filter_eq_nil_iff.mpr fun name hn hm => ?_
  exact h name hn (reserved_of_isMinted hm)

theorem minted_append_cons {t : Token} (h : t.isIdent = false) (ts us : List Token) :
    minted (ts ++ t :: us) = minted ts ++ minted (t :: us) := by
  rw [minted, vars_append_cons h, List.filter_append]
  rfl

theorem minted_append_braces (ts inner us : List Token) :
    minted ((ts ++ [braces inner]) ++ us) = minted (ts ++ [braces inner]) ++ minted us := by
  rw [minted, vars_append_braces, List.filter_append]
  rfl

theorem minted_group (delimiter : Delimiter) (inner us : List Token) :
    minted (.group delimiter inner :: us) = minted inner ++ minted us := by
  unfold minted vars
  rw [varsAfter, List.filter_append, Token.vars]
  rfl

theorem minted_ident (name : String) (us : List Token) :
    minted (.ident name :: us) = (if isMinted name then [name] else []) ++ minted us := by
  unfold minted vars
  rw [varsAfter, List.filter_append, Token.vars]
  cases h : isMinted name <;> simp [h, Token.selects]

theorem minted_literal (text : String) (us : List Token) :
    minted (.literal text :: us) = minted us :=
  rfl

theorem minted_punct {mark : Char} (h : mark ≠ '.') (joint : Bool) (us : List Token) :
    minted (.punct mark joint :: us) = minted us := by
  have hs : (Token.punct mark joint).selects = false := by simp [Token.selects, h]
  unfold minted vars
  rw [varsAfter, hs]
  rfl

theorem minted_selected (joint : Bool) (name : String) (us : List Token) :
    minted (.punct '.' joint :: .ident name :: us) = minted us :=
  rfl

theorem minted_nil : minted [] = [] := rfl

theorem minted_parens_cons (ts us : List Token) :
    minted (parens ts :: us) = minted ts ++ minted us :=
  minted_group .parenthesis ts us

theorem minted_braces_cons (ts us : List Token) :
    minted (braces ts :: us) = minted ts ++ minted us :=
  minted_group .brace ts us

theorem minted_parens (ts : List Token) : minted [parens ts] = minted ts :=
  (minted_parens_cons ts []).trans (List.append_nil _)

theorem minted_braces (ts : List Token) : minted [braces ts] = minted ts :=
  (minted_braces_cons ts []).trans (List.append_nil _)

theorem minted_append_block (ts inner : List Token) :
    minted (ts ++ [braces inner]) = minted ts ++ minted inner := by
  rw [minted_append_cons rfl, minted_braces]

/-! ## Words of the emitted code -/

/-- A name that is minted is the first minted name of tokens that begin with it. -/
theorem minted_name {name : String} (h : isMinted name = true) (us : List Token) :
    minted (.ident name :: us) = name :: minted us := by
  rw [minted_ident, if_pos h]
  rfl

theorem minted_word {name : String} (h : Names.letter name ∉ Names.letters) (us : List Token) :
    minted (.ident name :: us) = minted us := by
  rw [minted_ident, isMinted_eq_false h]
  rfl

theorem minted_marks {s : List Char} (h : '.' ∉ s) (us : List Token) :
    minted (Token.marks s ++ us) = minted us := by
  fun_induction Token.marks s with
  | case1 => rfl
  | case2 c =>
    have hc : c ≠ '.' := fun hc => h (by simp [hc])
    exact minted_punct hc false us
  | case3 c d s ih =>
    have hc : c ≠ '.' := fun hc => h (by simp [hc])
    rw [List.cons_append, minted_punct hc, ih fun hs => h (List.mem_cons_of_mem c hs)]

theorem minted_op {text : String} (h : '.' ∉ text.toList) (us : List Token) :
    minted (op text ++ us) = minted us :=
  minted_marks h us

theorem minted_select (name : String) (us : List Token) :
    minted (op "." ++ .ident name :: us) = minted us :=
  minted_selected false name us

theorem minted_methodCall (name : String) (us : List Token) :
    minted (methodCall name ++ us) = minted us := by
  rw [methodCall, List.append_assoc, List.cons_append, minted_select, List.singleton_append,
    minted_parens_cons, minted_nil, List.nil_append]

theorem minted_rooted {names : List String} (h : ∀ n ∈ names, Names.letter n ∉ Names.letters)
    (us : List Token) : minted (rooted names ++ us) = minted us := by
  induction names with
  | nil => rfl
  | cons n ns ih =>
    have hcons : rooted (n :: ns) ++ us = op "::" ++ .ident n :: (rooted ns ++ us) := by
      simp only [rooted, List.flatMap_cons, List.append_assoc, List.cons_append, List.nil_append]
    rw [hcons, minted_op (by decide), minted_word (h n List.mem_cons_self),
      ih fun m hm => h m (List.mem_cons_of_mem n hm)]

theorem minted_quoted (s : String) (us : List Token) :
    minted (Token.quoted s :: us) = minted us :=
  minted_literal _ us

theorem minted_number (n : Nat) (us : List Token) :
    minted (Token.number n :: us) = minted us :=
  minted_literal _ us

theorem minted_symbol (s : Symbol) (us : List Token) : minted (s.token :: us) = minted us := by
  cases s <;> exact minted_word (by decide) us

theorem minted_wideName (us : List Token) : minted (wideName :: us) = minted us :=
  minted_word (by decide) us

theorem minted_lengthName (us : List Token) : minted (lengthName :: us) = minted us :=
  minted_word (by decide) us

theorem minted_operator (side : Side) (us : List Token) :
    minted (side.operator ++ us) = minted us := by
  cases side <;> exact minted_op (by decide) us

/-! ## Expressions -/

theorem Reach.minted_binding {name : String} (h : isMinted name = true) :
    minted (binding name).tokens = [name] :=
  minted_name h []

theorem Reach.minted_member (base : Reach) (field : Member) :
    minted (member base field).tokens = minted base.tokens := by
  have hfield : minted (op "." ++ [field.token]) = [] := by
    cases field with
    | named name => exact minted_select name.text []
    | index n => rfl
  rw [Reach.tokens, List.append_assoc, List.append_assoc, minted_op (by decide),
    List.singleton_append, minted_parens_cons, hfield, List.append_nil]

theorem Reach.minted_pointee (base : Reach) :
    minted (pointee base).tokens = minted base.tokens := by
  rw [Reach.tokens, List.append_assoc, List.append_assoc, minted_op (by decide),
    minted_op (by decide), minted_op (by decide), minted_parens]

/-! ## Failures -/

theorem minted_integer (n : Int) : minted (Token.integer n) = [] := by
  unfold Token.integer
  split
  · rw [minted_op (by decide)]
    rfl
  · rfl

theorem minted_floating (x : Floating) : minted x.tokens = [] := by
  have hmagnitude : minted [.literal x.magnitudeText] = [] := rfl
  unfold Floating.tokens
  split
  next =>
    split
    · exact hmagnitude
    · rw [minted_op (by decide), hmagnitude]
  next => rw [minted_op (by decide), hmagnitude]
  next => exact hmagnitude

theorem Violation.minted_variant {name field : String} (hn : Names.letter name ∉ Names.letters)
    (hf : Names.letter field ∉ Names.letters) {value : Token} (hv : minted [value] = []) :
    minted (variant name field value) = [] := by
  rw [variant, minted_word hn, minted_braces, List.append_assoc, List.singleton_append,
    minted_word hf, minted_op (by decide), hv]

theorem minted_violation (v : Violation) : minted v.tokens = [] := by
  cases v with
  | tooFewItems n => exact Violation.minted_variant (by decide) (by decide) rfl
  | tooManyItems n => exact Violation.minted_variant (by decide) (by decide) rfl
  | tooShort n => exact Violation.minted_variant (by decide) (by decide) rfl
  | tooLong n => exact Violation.minted_variant (by decide) (by decide) rfl
  | belowMinimum t => exact Violation.minted_variant (by decide) (by decide) rfl
  | aboveMaximum t => exact Violation.minted_variant (by decide) (by decide) rfl
  | missing => exact minted_word (by decide) []
  | custom m => exact minted_word (by decide) [parens [Token.quoted m]]

theorem minted_returnError (error : List Token) : minted (returnError error) = minted error := by
  have hend : minted (op ";") = [] := by
    rw [← List.append_nil (op ";"), minted_op (by decide), minted_nil]
  simp only [returnError, List.append_assoc, List.cons_append, List.nil_append]
  rw [minted_word (by decide), minted_rooted (by decide), minted_parens_cons, hend,
    List.append_nil]

theorem minted_failure (f : Failure) : minted f.tokens = [] := by
  rw [Failure.tokens, minted_returnError, List.append_assoc, List.singleton_append, minted_symbol,
    minted_op (by decide), minted_word (by decide), minted_parens]
  simp only [List.append_assoc, List.cons_append, List.nil_append]
  rw [minted_quoted, minted_op (by decide), minted_symbol, minted_op (by decide),
    minted_violation]

theorem minted_atField (field : String) : minted (atField field) = [] := by
  rw [atField, minted_select, minted_parens]
  rfl

/-! ## Statements -/

-- The equations that the proofs below open their statements with.
attribute [local simp] Statement.tokens

theorem Test.minted_wide (side : Side) (limit : Int) : minted (wide side limit).tokens = [] := by
  simp only [Test.tokens, List.append_assoc, List.cons_append, List.nil_append]
  rw [minted_wideName, minted_select, minted_parens, minted_op (by decide),
    minted_word (by decide), minted_op (by decide), minted_word (by decide), minted_operator,
    minted_integer]

theorem Test.minted_float (side : Side) (value : Reach) (limit : Floating) :
    minted (float side value limit).tokens = minted value.tokens := by
  rw [Test.tokens, List.append_assoc, List.singleton_append, minted_parens_cons,
    minted_op (by decide), minted_operator, minted_floating, List.append_nil]

theorem Test.minted_length (side : Side) (limit : Nat) :
    minted (length side limit).tokens = [] := by
  rw [Test.tokens, List.append_assoc, List.singleton_append, minted_lengthName, minted_operator]
  rfl

theorem Test.minted_size (side : Side) (value : Reach) (limit : Nat) :
    minted (size side value limit).tokens = minted value.tokens := by
  simp only [Test.tokens, List.append_assoc, List.cons_append, List.nil_append]
  rw [minted_parens_cons, minted_methodCall, minted_operator, minted_number, minted_nil,
    List.append_nil]

theorem Test.minted_absent (value : Reach) :
    minted (absent value).tokens = minted value.tokens := by
  have hcall : minted (methodCall "is_none") = [] := minted_methodCall "is_none" []
  rw [Test.tokens, List.singleton_append, minted_parens_cons, hcall, List.append_nil]

/-- The expression that a test looks at. -/
def Test.reach : Test → List Token
  | float _ value _ => value.tokens
  | size _ value _ => value.tokens
  | absent value => value.tokens
  | _ => []

theorem Test.minted_tokens (test : Test) : minted test.tokens = minted test.reach := by
  cases test with
  | wide side limit => exact minted_wide side limit
  | float side value limit => exact minted_float side value limit
  | length side limit => exact minted_length side limit
  | size side value limit => exact minted_size side value limit
  | absent value => exact minted_absent value

theorem Statement.minted_guard (test : Test) (failure : Failure) :
    minted (guard test failure).tokens = minted test.reach := by
  rw [Statement.tokens, List.append_assoc, List.singleton_append, minted_word (by decide),
    minted_append_block, minted_failure, Test.minted_tokens, List.append_nil]

theorem minted_widening (value : Reach) (us : List Token) :
    minted (widening value ++ us) = minted value.tokens ++ minted us := by
  simp only [widening, List.append_assoc, List.cons_append, List.nil_append]
  rw [minted_op (by decide), minted_word (by decide), minted_word (by decide),
    minted_rooted (by decide), minted_op (by decide), minted_word (by decide),
    minted_op (by decide), minted_op (by decide), minted_word (by decide), minted_parens_cons,
    minted_op (by decide), minted_methodCall]

theorem Statement.minted_widen (value : Reach) (body : List Statement) :
    minted (widen value body).tokens = minted value.tokens ++ minted (code body) := by
  simp only [Statement.tokens, List.append_assoc, List.cons_append, List.nil_append]
  rw [minted_braces, minted_word (by decide), minted_wideName, minted_op (by decide),
    minted_widening, minted_op (by decide)]

theorem Statement.minted_measure (value : Reach) (body : List Statement) :
    minted (measure value body).tokens = minted value.tokens ++ minted (code body) := by
  simp only [Statement.tokens, List.append_assoc, List.cons_append, List.nil_append]
  rw [minted_braces, minted_word (by decide), minted_lengthName, minted_op (by decide),
    minted_parens_cons, minted_methodCall, minted_methodCall, minted_op (by decide)]

theorem Statement.minted_forEach {item : String} (h : isMinted item = true) (value : Reach)
    (body : List Statement) :
    minted (forEach item value body).tokens =
      item :: (minted value.tokens ++ minted (code body)) := by
  simp only [Statement.tokens, List.cons_append, List.nil_append]
  rw [minted_word (by decide), minted_name h, minted_word (by decide), minted_parens_cons,
    minted_methodCall, minted_braces]

/-- A part of a pattern is a minted name or none. -/
theorem minted_pattern {name : Option String} (h : ∀ x ∈ name, isMinted x = true)
    (us : List Token) : minted (pattern name :: us) = name.toList ++ minted us := by
  cases name with
  | none => exact minted_word (by decide) us
  | some x => exact minted_name (h x rfl) us

theorem Statement.minted_forEntries {key val : Option String} (hk : ∀ x ∈ key, isMinted x = true)
    (hv : ∀ x ∈ val, isMinted x = true) (value : Reach) (body : List Statement) :
    minted (forEntries key val value body).tokens =
      (key.toList ++ val.toList) ++ (minted value.tokens ++ minted (code body)) := by
  have hpattern : minted (pattern key :: (op "," ++ [pattern val])) = key.toList ++ val.toList := by
    rw [minted_pattern hk, minted_op (by decide), minted_pattern hv, minted_nil, List.append_nil]
  simp only [Statement.tokens, List.cons_append, List.nil_append]
  rw [minted_word (by decide), minted_parens_cons, hpattern, minted_word (by decide),
    minted_parens_cons, minted_methodCall, minted_braces]

theorem minted_ifLet {names : List String} (h : ∀ n ∈ names, Names.letter n ∉ Names.letters)
    (name : String) (value body : List Token) :
    minted (ifLet names name value body) =
      minted [.ident name] ++ (minted value ++ minted body) := by
  simp only [ifLet, List.append_assoc, List.cons_append, List.nil_append]
  rw [minted_word (by decide), minted_word (by decide), minted_rooted h, minted_parens_cons,
    minted_op (by decide), minted_append_block]

theorem Statement.minted_ifPresent {inner : String} (h : isMinted inner = true) (value : Reach)
    (body : List Statement) :
    minted (ifPresent inner value body).tokens =
      inner :: (minted value.tokens ++ minted (code body)) := by
  rw [Statement.tokens, minted_ifLet (by decide), minted_name h]
  rfl

theorem Statement.minted_matchPresent {inner : String} (h : isMinted inner = true) (value : Reach)
    (body : List Statement) (failure : Failure) :
    minted (matchPresent inner value body failure).tokens =
      minted value.tokens ++ inner :: minted (code body) := by
  rw [Statement.tokens, List.append_assoc, List.singleton_append, minted_word (by decide),
    minted_append_block]
  simp only [List.append_assoc, List.cons_append, List.nil_append]
  rw [minted_rooted (by decide), minted_parens_cons, minted_name h, minted_op (by decide),
    minted_braces_cons, minted_rooted (by decide), minted_op (by decide), minted_braces,
    minted_failure, List.append_nil]
  rfl

theorem minted_ifError (result error : List Token) :
    minted (ifError result error) = minted result ++ minted error := by
  have herr : minted [.ident "err"] = [] := minted_word (by decide) []
  rw [ifError, minted_ifLet (by decide), herr, minted_returnError]
  rfl

theorem Statement.minted_delegate (value : Reach) (field : String) :
    minted (delegate value field).tokens = minted value.tokens := by
  rw [Statement.tokens, minted_ifError]
  simp only [List.cons_append, List.nil_append]
  rw [minted_symbol, minted_op (by decide), minted_word (by decide), minted_parens,
    minted_word (by decide), minted_atField, List.append_nil]

theorem Statement.minted_call (c : Call) (field : String) :
    minted (call c field).tokens = minted c.tokens := by
  have herr : minted [.ident "err"] = [] := minted_word (by decide) []
  rw [Statement.tokens, minted_ifError]
  simp only [List.append_assoc, List.cons_append, List.nil_append]
  rw [minted_rooted (by decide), minted_op (by decide), minted_op (by decide), minted_symbol,
    minted_op (by decide), minted_op (by decide), minted_word (by decide), minted_parens_cons, herr,
    minted_atField]
  exact List.append_nil _

/-! ## Calls -/

/-- The tokens that the author of a chain gives for a validator. -/
def Validator.supplied : Validator → List Token
  | method name => [.ident name.text]
  | function path => path.tokens

/-- The tokens that the author of a wrapper gives for its type. -/
def Receiver.supplied : Receiver → List Token
  | value => []
  | type ty => ty.tokens

theorem Validator.minted_call {v : Validator} {receiver : Receiver} (hv : Free v.supplied)
    (hr : Free receiver.supplied) (r : Reach) :
    minted (v.call r receiver).tokens = minted r.tokens := by
  cases v with
  | method name =>
    cases receiver with
    | value =>
      have hcall : minted (methodCall name.text) = [] := minted_methodCall name.text []
      rw [Validator.call, Call.tokens, List.singleton_append, minted_parens_cons, hcall,
        List.append_nil]
    | type ty =>
      have hty : minted ty.tokens = [] := hr.minted
      have hname : minted [.ident name.text] = [] := hv.minted
      have hcall : minted [.ident name.text, parens r.tokens] = minted r.tokens := by
        rw [← List.singleton_append, minted_append_cons rfl, hname, minted_parens, List.nil_append]
      simp only [Validator.call, Call.tokens, List.append_assoc]
      have hclose : op ">" = [.punct '>' false] := rfl
      rw [minted_op (by decide), hclose, List.singleton_append, minted_append_cons rfl, hty,
        minted_punct (by decide), minted_op (by decide), hcall, List.nil_append]
  | function path =>
    have hpath : minted path.tokens = [] := hv.minted
    rw [Validator.call, Call.tokens, minted_append_cons rfl, hpath, minted_parens,
      List.nil_append]

/-! ## Lists of statements -/

theorem Statement.exists_block (s : Statement) : ∃ ts inner, s.tokens = ts ++ [braces inner] := by
  cases s with
  | guard test failure => exact ⟨_, _, rfl⟩
  | widen value body => exact ⟨[], _, rfl⟩
  | measure value body => exact ⟨[], _, rfl⟩
  | forEach item value body => exact ⟨_, _, rfl⟩
  | forEntries key val value body => exact ⟨_, _, rfl⟩
  | ifPresent inner value body => exact ⟨_, _, rfl⟩
  | matchPresent inner value body failure => exact ⟨_, _, rfl⟩
  | delegate value field => exact ⟨_, _, rfl⟩
  | call call field => exact ⟨_, _, rfl⟩

theorem minted_code_cons (s : Statement) (ss : List Statement) :
    minted (code (s :: ss)) = minted s.tokens ++ minted (code ss) := by
  obtain ⟨ts, inner, h⟩ := s.exists_block
  rw [code, h, minted_append_braces]

theorem minted_code_append (ss us : List Statement) :
    minted (code (ss ++ us)) = minted (code ss) ++ minted (code us) := by
  induction ss with
  | nil => rfl
  | cons s ss ih => rw [List.cons_append, minted_code_cons, ih, minted_code_cons, List.append_assoc]

theorem minted_code_singleton (s : Statement) : minted (code [s]) = minted s.tokens := by
  rw [minted_code_cons]
  exact List.append_nil _

theorem code_ne_nil {ss : List Statement} (h : ss ≠ []) : code ss ≠ [] := by
  cases ss with
  | nil => exact absurd rfl h
  | cons s ss =>
    obtain ⟨ts, inner, hs⟩ := s.exists_block
    rw [code, hs]
    simp

/-- A minted name occurs in tokens as often as among their minted names. -/
theorem count_minted {name : String} (h : isMinted name = true) (ts : List Token) :
    (minted ts).count name = (vars ts).count name :=
  List.count_filter h

end FieldRules
