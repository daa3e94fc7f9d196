import FieldRules.Proofs.Emit.Hygiene

/-!
# Renaming the variables of code

`renameVars ρ ts` are the tokens `ts` with every variable renamed by `ρ`; what is selected by a `.`
keeps its name, as for `vars`. A renaming that keeps the words of the emitted code goes through each
kind of statement to the expressions, patterns and bodies in it, so that statements which differ in
these by a renaming differ by it as a whole. `Renames ρ ss us` says that of two lists of statements.
-/

namespace FieldRules

open Token (op rooted parens braces)

/-! ## Tokens -/

mutual

/-- The token with its variables renamed. It may be selected from what comes before it. -/
def Token.renamed (ρ : String → String) (selected : Bool) : Token → Token
  | .ident name => .ident (if selected then name else ρ name)
  | .literal text => .literal text
  | .punct mark joint => .punct mark joint
  | .group delimiter inner => .group delimiter (renameAfter ρ false inner)

/-- The tokens with their variables renamed, of which the first may be selected from what comes
before. -/
def renameAfter (ρ : String → String) (selected : Bool) : List Token → List Token
  | [] => []
  | t :: ts => t.renamed ρ selected :: renameAfter ρ t.selects ts

end

/-- The tokens with their variables renamed. -/
def renameVars (ρ : String → String) (ts : List Token) : List Token := renameAfter ρ false ts

section

variable {ρ : String → String}

theorem renameAfter_append (selected : Bool) (ts us : List Token) :
    renameAfter ρ selected (ts ++ us) =
      renameAfter ρ selected ts ++ renameAfter ρ (endsSelecting selected ts) us := by
  induction ts generalizing selected with
  | nil => rfl
  | cons t ts ih =>
    rw [List.cons_append, renameAfter, renameAfter, ih, endsSelecting, List.cons_append]

theorem length_renameAfter (selected : Bool) (ts : List Token) :
    (renameAfter ρ selected ts).length = ts.length := by
  induction ts generalizing selected with
  | nil => rfl
  | cons t ts ih => rw [renameAfter, List.length_cons, ih, List.length_cons]

/-- Only an identifier is selected from what comes before. -/
theorem renameAfter_of_not_ident (selected : Bool) {t : Token} (h : t.isIdent = false)
    (ts : List Token) : renameAfter ρ selected (t :: ts) = renameVars ρ (t :: ts) := by
  unfold renameVars
  cases t with
  | ident name => cases h
  | literal text => rfl
  | punct mark joint => rfl
  | group delimiter inner => rfl

theorem renameVars_nil : renameVars ρ [] = [] := rfl

theorem renameVars_append_cons {t : Token} (h : t.isIdent = false) (ts us : List Token) :
    renameVars ρ (ts ++ t :: us) = renameVars ρ ts ++ renameVars ρ (t :: us) := by
  rw [renameVars, renameAfter_append, renameAfter_of_not_ident _ h]
  rfl

theorem renameVars_append_braces (ts inner us : List Token) :
    renameVars ρ ((ts ++ [braces inner]) ++ us) =
      renameVars ρ (ts ++ [braces inner]) ++ renameVars ρ us := by
  unfold renameVars
  rw [renameAfter_append, endsSelecting_append_singleton]
  rfl

theorem renameVars_ident (name : String) (us : List Token) :
    renameVars ρ (.ident name :: us) = .ident (ρ name) :: renameVars ρ us :=
  rfl

theorem renameVars_parens (ts us : List Token) :
    renameVars ρ (parens ts :: us) = parens (renameVars ρ ts) :: renameVars ρ us :=
  rfl

theorem renameVars_braces (ts us : List Token) :
    renameVars ρ (braces ts :: us) = braces (renameVars ρ ts) :: renameVars ρ us :=
  rfl

theorem renameVars_punct {mark : Char} (h : mark ≠ '.') (joint : Bool) (us : List Token) :
    renameVars ρ (.punct mark joint :: us) = .punct mark joint :: renameVars ρ us := by
  have hs : (Token.punct mark joint).selects = false := by simp [Token.selects, h]
  unfold renameVars
  rw [renameAfter, hs]
  rfl

theorem renameVars_marks {s : List Char} (h : '.' ∉ s) (us : List Token) :
    renameVars ρ (Token.marks s ++ us) = Token.marks s ++ renameVars ρ us := by
  fun_induction Token.marks s with
  | case1 => rfl
  | case2 c => exact renameVars_punct (fun hc => h (by simp [hc])) false us
  | case3 c d s ih =>
    have hc : c ≠ '.' := fun hc => h (by simp [hc])
    rw [List.cons_append, renameVars_punct hc, ih fun hs => h (List.mem_cons_of_mem c hs),
      List.cons_append]

theorem renameVars_op {text : String} (h : '.' ∉ text.toList) (us : List Token) :
    renameVars ρ (op text ++ us) = op text ++ renameVars ρ us :=
  renameVars_marks h us

theorem renameVars_select (name : String) (us : List Token) :
    renameVars ρ (op "." ++ .ident name :: us) = op "." ++ .ident name :: renameVars ρ us :=
  rfl

theorem renameVars_methodCall (name : String) (us : List Token) :
    renameVars ρ (methodCall name ++ us) = methodCall name ++ renameVars ρ us := by
  rw [methodCall, List.append_assoc, List.cons_append, renameVars_select, List.singleton_append,
    renameVars_parens, renameVars_nil, List.append_assoc]
  rfl

theorem renameVars_operator (side : Side) (us : List Token) :
    renameVars ρ (side.operator ++ us) = side.operator ++ renameVars ρ us := by
  cases side <;> exact renameVars_op (by decide) us

theorem renameVars_size {r r' : Reach} (hr : renameVars ρ r.tokens = r'.tokens) (side : Side)
    (limit : Nat) :
    renameVars ρ (Test.size side r limit).tokens = (Test.size side r' limit).tokens := by
  simp only [Test.tokens, List.append_assoc, List.cons_append, List.nil_append]
  rw [renameVars_parens, hr, renameVars_methodCall, renameVars_operator]
  rfl

theorem renameVars_absent {r r' : Reach} (hr : renameVars ρ r.tokens = r'.tokens) :
    renameVars ρ (Test.absent r).tokens = (Test.absent r').tokens := by
  have hcall : renameVars ρ (methodCall "is_none") = methodCall "is_none" :=
    renameVars_methodCall "is_none" []
  simp only [Test.tokens, List.singleton_append]
  rw [renameVars_parens, hr, hcall]

mutual

/-- Tokens whose variables are all kept stay as they are. -/
theorem Token.renamed_eq_self {selected : Bool} (t : Token)
    (h : ∀ name ∈ t.vars selected, ρ name = name) : t.renamed ρ selected = t := by
  match t with
  | .ident name =>
    cases selected with
    | true => rfl
    | false =>
      rw [Token.renamed]
      exact congrArg Token.ident (h name List.mem_cons_self)
  | .literal text => rfl
  | .punct mark joint => rfl
  | .group delimiter inner =>
    rw [Token.renamed]
    exact congrArg (Token.group delimiter) (renameAfter_eq_self inner h)

/-- The same for a list of tokens. -/
theorem renameAfter_eq_self {selected : Bool} (ts : List Token)
    (h : ∀ name ∈ varsAfter selected ts, ρ name = name) : renameAfter ρ selected ts = ts := by
  match ts with
  | [] => rfl
  | t :: ts =>
    rw [varsAfter, List.forall_mem_append] at h
    rw [renameAfter, t.renamed_eq_self h.1, renameAfter_eq_self ts h.2]

end

theorem renameVars_eq_self {ts : List Token} (h : ∀ name ∈ vars ts, ρ name = name) :
    renameVars ρ ts = ts :=
  renameAfter_eq_self ts h

end

/-! ## Words of the emitted code -/

/-- The renaming keeps names that do not begin as minted names do. -/
def KeepsWords (ρ : String → String) : Prop := ∀ name, isMinted name = false → ρ name = name

namespace KeepsWords

variable {ρ : String → String} (h : KeepsWords ρ)
include h

theorem word {name : String} (hname : Names.letter name ∉ Names.letters) : ρ name = name :=
  h name (isMinted_eq_false hname)

/-- Tokens stay as they are if their minted names are kept. -/
theorem renameVars_eq_self {ts : List Token} (hts : ∀ name ∈ minted ts, ρ name = name) :
    renameVars ρ ts = ts := by
  refine FieldRules.renameVars_eq_self fun name hname => ?_
  by_cases hm : isMinted name = true
  · exact hts name (List.mem_filter.mpr ⟨hname, hm⟩)
  · exact h name (Bool.eq_false_iff.mpr hm)

theorem renameVars_of_minted {ts : List Token} (hts : minted ts = []) : renameVars ρ ts = ts :=
  h.renameVars_eq_self fun _ hname => (nomatch hts ▸ hname)

theorem renameVars_word {name : String} (hname : Names.letter name ∉ Names.letters)
    (us : List Token) : renameVars ρ (.ident name :: us) = .ident name :: renameVars ρ us := by
  rw [renameVars_ident, h.word hname]

theorem renameVars_rooted {names : List String}
    (hnames : ∀ n ∈ names, Names.letter n ∉ Names.letters) (us : List Token) :
    renameVars ρ (rooted names ++ us) = rooted names ++ renameVars ρ us := by
  induction names with
  | nil => rfl
  | cons n ns ih =>
    have hcons : ∀ vs, rooted (n :: ns) ++ vs = op "::" ++ .ident n :: (rooted ns ++ vs) := by
      intro vs
      simp only [rooted, List.flatMap_cons, List.append_assoc, List.cons_append, List.nil_append]
    rw [hcons, hcons, renameVars_op (by decide), h.renameVars_word (hnames n List.mem_cons_self),
      ih fun m hm => hnames m (List.mem_cons_of_mem n hm)]

theorem renameVars_symbol (s : Symbol) (us : List Token) :
    renameVars ρ (s.token :: us) = s.token :: renameVars ρ us := by
  cases s <;> exact h.renameVars_word (by decide) us

theorem renameVars_failure (f : Failure) : renameVars ρ f.tokens = f.tokens :=
  h.renameVars_of_minted (minted_failure f)

/-! ## Parts of statements -/

theorem renameVars_wide (side : Side) (limit : Int) :
    renameVars ρ (Test.wide side limit).tokens = (Test.wide side limit).tokens :=
  h.renameVars_of_minted (Test.minted_wide side limit)

theorem renameVars_length (side : Side) (limit : Nat) :
    renameVars ρ (Test.length side limit).tokens = (Test.length side limit).tokens :=
  h.renameVars_of_minted (Test.minted_length side limit)

theorem renameVars_pattern (name : Option String) (ts : List Token) :
    renameVars ρ (pattern name :: ts) = pattern (name.map ρ) :: renameVars ρ ts := by
  cases name with
  | none => exact h.renameVars_word (by decide) ts
  | some x => rfl

theorem renameVars_ifLet {names : List String}
    (hnames : ∀ n ∈ names, Names.letter n ∉ Names.letters) (name : String)
    (value body : List Token) : renameVars ρ (ifLet names name value body) =
      ifLet names (ρ name) (renameVars ρ value) (renameVars ρ body) := by
  simp only [ifLet, List.append_assoc, List.cons_append, List.nil_append]
  rw [h.renameVars_word (by decide), h.renameVars_word (by decide), h.renameVars_rooted hnames,
    renameVars_parens, renameVars_op (by decide), renameVars_append_cons rfl, renameVars_braces]
  rfl

theorem renameVars_ifError {result result' error : List Token}
    (hresult : renameVars ρ result = result') (herror : minted error = []) :
    renameVars ρ (ifError result error) = ifError result' error := by
  have hreturn : renameVars ρ (returnError error) = returnError error :=
    h.renameVars_of_minted ((minted_returnError error).trans herror)
  rw [ifError, h.renameVars_ifLet (by decide), h.word (by decide), hresult, hreturn, ifError]

/-! ## Statements -/

theorem renameVars_guard {test test' : Test} (htest : renameVars ρ test.tokens = test'.tokens)
    (failure : Failure) : renameVars ρ (Statement.guard test failure).tokens =
      (Statement.guard test' failure).tokens := by
  simp only [Statement.tokens, List.cons_append, List.nil_append]
  rw [h.renameVars_word (by decide), renameVars_append_cons rfl, htest, renameVars_braces,
    h.renameVars_failure]
  rfl

theorem renameVars_callStatement {c c' : Call} (hcall : renameVars ρ c.tokens = c'.tokens)
    (field : String) :
    renameVars ρ (Statement.call c field).tokens = (Statement.call c' field).tokens := by
  rw [Statement.tokens, Statement.tokens]
  refine h.renameVars_ifError hcall ?_
  simp only [List.append_assoc, List.cons_append, List.nil_append]
  rw [minted_rooted (by decide), minted_op (by decide), minted_op (by decide), minted_symbol,
    minted_op (by decide), minted_op (by decide), minted_word (by decide), minted_parens_cons,
    minted_word (by decide), minted_nil, minted_atField]
  rfl

variable {r r' : Reach} (hr : renameVars ρ r.tokens = r'.tokens)

include hr

theorem renameVars_float (side : Side) (limit : Floating) :
    renameVars ρ (Test.float side r limit).tokens = (Test.float side r' limit).tokens := by
  have hlimit : renameVars ρ limit.tokens = limit.tokens :=
    h.renameVars_of_minted (minted_floating limit)
  simp only [Test.tokens, List.cons_append, List.nil_append]
  rw [renameVars_parens, renameVars_op (by decide), hr, renameVars_operator, hlimit]

theorem renameVars_call {v : Validator} {receiver : Receiver} (hv : Free v.supplied)
    (hreceiver : Free receiver.supplied) :
    renameVars ρ (v.call r receiver).tokens = (v.call r' receiver).tokens := by
  cases v with
  | method name =>
    cases receiver with
    | value =>
      have hcall : renameVars ρ (methodCall name.text) = methodCall name.text :=
        renameVars_methodCall name.text []
      simp only [Validator.call, Call.tokens, List.singleton_append]
      rw [renameVars_parens, hr, hcall]
    | type ty =>
      have hty : renameVars ρ ty.tokens = ty.tokens := h.renameVars_of_minted hreceiver.minted
      have hname : renameVars ρ [.ident name.text] = [.ident name.text] :=
        h.renameVars_of_minted hv.minted
      have hcall : renameVars ρ [.ident name.text, parens r.tokens] =
          [.ident name.text, parens r'.tokens] := by
        rw [← List.singleton_append, renameVars_append_cons rfl, hname, renameVars_parens, hr]
        rfl
      have hclose : ∀ us, op ">" ++ us = .punct '>' false :: us := fun _ => rfl
      simp only [Validator.call, Call.tokens, List.append_assoc, hclose, List.cons_append]
      rw [renameVars_op (by decide), renameVars_append_cons rfl, hty,
        renameVars_punct (by decide), renameVars_op (by decide), hcall]
  | function path =>
    have hpath : renameVars ρ path.tokens = path.tokens := h.renameVars_of_minted hv.minted
    rw [Validator.call, Call.tokens, renameVars_append_cons rfl, hpath, renameVars_parens, hr]
    rfl

theorem renameVars_widening (us : List Token) :
    renameVars ρ (widening r ++ us) = widening r' ++ renameVars ρ us := by
  simp only [widening, List.append_assoc, List.cons_append, List.nil_append]
  rw [renameVars_op (by decide), h.renameVars_word (by decide), h.renameVars_word (by decide),
    h.renameVars_rooted (by decide), renameVars_op (by decide), h.renameVars_word (by decide),
    renameVars_op (by decide), renameVars_op (by decide), h.renameVars_word (by decide),
    renameVars_parens, renameVars_op (by decide), hr, renameVars_methodCall]

theorem renameVars_delegate (field : String) :
    renameVars ρ (Statement.delegate r field).tokens = (Statement.delegate r' field).tokens := by
  rw [Statement.tokens, Statement.tokens]
  refine h.renameVars_ifError ?_ (minted_atField field)
  simp only [List.cons_append, List.nil_append]
  rw [h.renameVars_symbol, renameVars_op (by decide), h.renameVars_word (by decide),
    renameVars_parens, hr]
  rfl

variable {ss us : List Statement} (hcode : renameVars ρ (code ss) = code us)

include hcode

theorem renameVars_widen :
    renameVars ρ (Statement.widen r ss).tokens = (Statement.widen r' us).tokens := by
  simp only [Statement.tokens, List.append_assoc, List.cons_append, List.nil_append]
  rw [renameVars_braces, h.renameVars_word (by decide), wideName, h.renameVars_word (by decide),
    renameVars_op (by decide), h.renameVars_widening hr, renameVars_op (by decide), hcode]
  rfl

theorem renameVars_measure :
    renameVars ρ (Statement.measure r ss).tokens = (Statement.measure r' us).tokens := by
  simp only [Statement.tokens, List.append_assoc, List.cons_append, List.nil_append]
  rw [renameVars_braces, h.renameVars_word (by decide), lengthName, h.renameVars_word (by decide),
    renameVars_op (by decide), renameVars_parens, hr, renameVars_methodCall,
    renameVars_methodCall, renameVars_op (by decide), hcode]
  rfl

theorem renameVars_forEach (item : String) :
    renameVars ρ (Statement.forEach item r ss).tokens =
      (Statement.forEach (ρ item) r' us).tokens := by
  simp only [Statement.tokens, List.cons_append, List.nil_append]
  rw [h.renameVars_word (by decide), renameVars_ident, h.renameVars_word (by decide),
    renameVars_parens, hr, renameVars_methodCall, renameVars_braces, hcode]
  rfl

theorem renameVars_forEntries (key val : Option String) :
    renameVars ρ (Statement.forEntries key val r ss).tokens =
      (Statement.forEntries (key.map ρ) (val.map ρ) r' us).tokens := by
  simp only [Statement.tokens, List.cons_append, List.nil_append]
  rw [h.renameVars_word (by decide), renameVars_parens, h.renameVars_pattern,
    renameVars_op (by decide), h.renameVars_pattern, h.renameVars_word (by decide),
    renameVars_parens, hr, renameVars_methodCall, renameVars_braces, hcode]
  rfl

theorem renameVars_ifPresent (inner : String) :
    renameVars ρ (Statement.ifPresent inner r ss).tokens =
      (Statement.ifPresent (ρ inner) r' us).tokens := by
  rw [Statement.tokens, h.renameVars_ifLet (by decide), hr, hcode, Statement.tokens]

theorem renameVars_matchPresent (inner : String) (failure : Failure) :
    renameVars ρ (Statement.matchPresent inner r ss failure).tokens =
      (Statement.matchPresent (ρ inner) r' us failure).tokens := by
  simp only [Statement.tokens, List.append_assoc, List.cons_append, List.nil_append]
  rw [h.renameVars_word (by decide), renameVars_append_cons rfl, hr, renameVars_braces,
    h.renameVars_rooted (by decide), renameVars_parens, renameVars_op (by decide),
    renameVars_braces, hcode, h.renameVars_rooted (by decide), renameVars_op (by decide),
    renameVars_braces, h.renameVars_failure]
  rfl

end KeepsWords

/-! ## Lists of statements -/

section

variable {ρ : String → String} {r r' : Reach} (hr : renameVars ρ r.tokens = r'.tokens)

include hr

theorem renameVars_member (field : Member) :
    renameVars ρ (Reach.member r field).tokens = (Reach.member r' field).tokens := by
  have hfield : renameVars ρ (op "." ++ [field.token]) = op "." ++ [field.token] := by
    cases field with
    | named name => exact renameVars_select name.text []
    | index n => rfl
  simp only [Reach.tokens, List.append_assoc, List.cons_append, List.nil_append]
  rw [renameVars_op (by decide), renameVars_parens, hr, hfield]

theorem renameVars_pointee :
    renameVars ρ (Reach.pointee r).tokens = (Reach.pointee r').tokens := by
  simp only [Reach.tokens, List.append_assoc]
  rw [renameVars_op (by decide), renameVars_op (by decide), renameVars_op (by decide),
    renameVars_parens, hr]
  rfl

end

theorem renameVars_code_cons (ρ : String → String) (s : Statement) (ss : List Statement) :
    renameVars ρ (code (s :: ss)) = renameVars ρ s.tokens ++ renameVars ρ (code ss) := by
  obtain ⟨ts, inner, h⟩ := s.exists_block
  rw [code, h, renameVars_append_braces]

theorem renameVars_code_append (ρ : String → String) (ss us : List Statement) :
    renameVars ρ (code (ss ++ us)) = renameVars ρ (code ss) ++ renameVars ρ (code us) := by
  induction ss with
  | nil => rfl
  | cons s ss ih =>
    rw [List.cons_append, renameVars_code_cons, ih, renameVars_code_cons, List.append_assoc]

/-- The code of `us` is that of `ss` with its variables renamed. -/
def Renames (ρ : String → String) (ss us : List Statement) : Prop :=
  renameVars ρ (code ss) = code us

namespace Renames

variable {ρ : String → String} {ss ss' us us' : List Statement} {t t' : Statement}

theorem nil : Renames ρ [] [] := rfl

theorem append (h : Renames ρ ss us) (h' : Renames ρ ss' us') :
    Renames ρ (ss ++ ss') (us ++ us') := by
  rw [Renames, renameVars_code_append, h, h', code_append]

theorem singleton (h : renameVars ρ t.tokens = t'.tokens) : Renames ρ [t] [t'] := by
  rw [Renames, renameVars_code_cons, h]
  rfl

theorem map {α : Type} {f g : α → Statement} {as : List α}
    (h : ∀ a ∈ as, renameVars ρ (f a).tokens = (g a).tokens) :
    Renames ρ (as.map f) (as.map g) := by
  induction as with
  | nil => exact nil
  | cons a as ih =>
    obtain ⟨ha, has⟩ := List.forall_mem_cons.mp h
    exact (singleton ha).append (ih has)

/-- Both have statements or neither has. -/
theorem isEmpty_eq (h : Renames ρ ss us) : ss.isEmpty = us.isEmpty := by
  have hlength : (code ss).length = (code us).length := by
    rw [← h, renameVars, length_renameAfter]
  have hcode : ∀ ss : List Statement, (code ss).length = 0 ↔ ss = [] := by
    intro ss
    rw [List.length_eq_zero_iff]
    refine ⟨fun hnil => Decidable.byContradiction fun hne => code_ne_nil hne hnil, ?_⟩
    rintro rfl
    rfl
  rw [Bool.eq_iff_iff, List.isEmpty_iff, List.isEmpty_iff, ← hcode, ← hcode us, hlength]

/-- Code around renamed code, or none around none. -/
theorem unlessEmpty {wrap wrap' : List Statement → Statement} (h : Renames ρ ss us)
    (hwrap : renameVars ρ (wrap ss).tokens = (wrap' us).tokens) :
    Renames ρ (unlessEmpty wrap ss) (unlessEmpty wrap' us) := by
  rw [FieldRules.unlessEmpty, FieldRules.unlessEmpty, h.isEmpty_eq]
  split
  · exact nil
  · exact singleton hwrap

end Renames

end FieldRules
