import Mathlib.Algebra.Order.Field.Power
import Mathlib.Data.List.Induction
import Mathlib.Tactic.FieldSimp
import Mathlib.Tactic.Ring
import FieldRules.Number.Decimal
import FieldRules.Proofs.Tag.Grammar

/-!
# Numerals

The written form of a decimal number, said without a reader. A `Numeral` is made of its parts: a
sign, digits, a point with digits after it, and an exponent, of which only some digits are required;
`Numeral.value` is the exact number that it denotes. The readers of numbers take exactly the texts
of numerals: `Decimal.ofText?` takes all of them and gives a decimal number of the same value
(`Decimal.ofText?_text`, `Numeral.exists_of_ofText?`), and `wholeNumber?` takes those without a
point and an exponent (`Numeral.wholeNumber?_text`).
-/

namespace FieldRules

/-! ## Signs and digits -/

/-- The sign in front of a number, which may be missing. -/
inductive Sign where
  | none
  | plus
  | minus
deriving DecidableEq, Repr

namespace Sign

def text : Sign → List Char
  | none => []
  | plus => ['+']
  | minus => ['-']

/-- Whether the number is negative, or a negative zero. -/
def isMinus : Sign → Bool
  | minus => true
  | _ => false

end Sign

/-- A run of decimal digits. -/
def Digits (ds : List Char) : Prop := ∀ c ∈ ds, c.isDigit = true

instance (ds : List Char) : Decidable (Digits ds) :=
  decidable_of_iff (ds.all Char.isDigit = true) List.all_eq_true

/-- The text begins with no sign. -/
def Unsigned (s : List Char) : Prop := ∀ c ∈ s.head?, c ≠ '-' ∧ c ≠ '+'

theorem splitSign_text (sign : Sign) {s : List Char} (hs : Unsigned s) :
    splitSign (sign.text ++ s) = (sign.isMinus, s) := by
  cases sign with
  | plus => rfl
  | minus => rfl
  | none =>
    cases s with
    | nil => rfl
    | cons c s =>
      obtain ⟨hminus, hplus⟩ := hs c rfl
      show splitSign (c :: s) = _
      unfold splitSign
      split
      next h => exact absurd (List.cons.inj h).1 hminus
      next h => exact absurd (List.cons.inj h).1 hplus
      next => rfl

theorem exists_splitSign (s : List Char) : ∃ sign : Sign, s = sign.text ++ (splitSign s).2 := by
  unfold splitSign
  split
  · exact ⟨.minus, rfl⟩
  · exact ⟨.plus, rfl⟩
  · exact ⟨.none, rfl⟩

theorem ne_sign_of_isDigit {c : Char} (h : c.isDigit = true) : c ≠ '-' ∧ c ≠ '+' := by
  constructor <;> rintro rfl <;> simp at h

theorem Digits.unsigned {ds : List Char} (h : Digits ds) : Unsigned ds :=
  fun c hc => ne_sign_of_isDigit (h c (List.mem_of_mem_head? hc))

theorem digitsValue_append (as bs : List Char) :
    digitsValue (as ++ bs) = digitsValue as * 10 ^ bs.length + digitsValue bs := by
  induction bs using List.reverseRecOn with
  | nil => simp [digitsValue]
  | append_singleton bs c ih =>
    have hstep : ∀ ds : List Char,
        digitsValue (ds ++ [c]) = 10 * digitsValue ds + (c.toNat - '0'.toNat) := by
      intro ds
      rw [digitsValue, List.foldl_append]
      rfl
    rw [← List.append_assoc, hstep, hstep, ih, List.length_append, List.length_singleton, pow_succ]
    ring

/-! ## Whole numbers -/

theorem wholeNumber?_text (sign : Sign) {ds : List Char} (hds : Digits ds) (hne : ds ≠ []) :
    wholeNumber? (sign.text ++ ds) = some (signed sign.isMinus (digitsValue ds)) := by
  unfold wholeNumber?
  rw [splitSign_text sign hds.unsigned]
  have hall : ds.all Char.isDigit = true := List.all_eq_true.mpr hds
  simp [hne, hall]

/-- What is read as a whole number is a sign and digits. -/
theorem exists_sign_of_wholeNumber? {s : List Char} {n : ℤ} (h : wholeNumber? s = some n) :
    ∃ (sign : Sign) (ds : List Char), Digits ds ∧ ds ≠ [] ∧ s = sign.text ++ ds := by
  obtain ⟨sign, hs⟩ := exists_splitSign s
  unfold wholeNumber? at h
  dsimp only at h
  split at h
  next => cases h
  next hds =>
    simp only [Bool.or_eq_true, List.isEmpty_iff, Bool.not_eq_true', not_or,
      Bool.not_eq_false] at hds
    exact ⟨sign, _, List.all_eq_true.mp hds.2, hds.1, hs⟩

/-! ## The grammar -/

structure Exponent where
  mark : Char
  sign : Sign
  digits : List Char
  isMark : mark = 'e' ∨ mark = 'E'
  isDigits : Digits digits
  nonempty : digits ≠ []

namespace Exponent

def text (x : Exponent) : List Char := x.mark :: (x.sign.text ++ x.digits)

/-- The power of ten. -/
def value (x : Exponent) : ℤ := signed x.sign.isMinus (digitsValue x.digits)

end Exponent

/-- The written form of a decimal number. -/
structure Numeral where
  sign : Sign
  whole : List Char
  /-- The point, if there is one, with the digits after it. -/
  part : Option (List Char)
  exponent : Option Exponent
  isDigits : Digits whole
  isDigits_part : Digits (part.getD [])
  nonempty : whole ≠ [] ∨ part.getD [] ≠ []

namespace Numeral

variable (t : Numeral)

/-- The digits after the point. -/
def decimals : List Char := t.part.getD []

/-- The point with the digits after it, as it is written. -/
def pointText : List Char := t.part.elim [] ('.' :: ·)

def exponentText : List Char := t.exponent.elim [] Exponent.text

def text : List Char := t.sign.text ++ (t.whole ++ (t.pointText ++ t.exponentText))

/-- The power of ten that the exponent stands for. -/
def power : ℤ := t.exponent.elim 0 Exponent.value

/-- The exact number that a numeral denotes. -/
def value : ℚ :=
  (if t.sign.isMinus then -1 else 1) *
    (digitsValue t.whole + digitsValue t.decimals / 10 ^ t.decimals.length) * 10 ^ t.power

/-- The numeral is a whole number in plain digits. -/
def Plain : Prop := t.part = none ∧ t.exponent = none

end Numeral

/-! ## Decimal numbers -/

namespace Decimal

/-- The exact number that a decimal number is. -/
def value (d : Decimal) : ℚ := signed d.negative d.digits * 10 ^ d.exponent

/-- The digits after a point at the head of a text, and the text after them. -/
def splitPart : List Char → List Char × List Char
  | '.' :: r => (r.takeWhile Char.isDigit, r.dropWhile Char.isDigit)
  | r => ([], r)

theorem ofText?_eq (s : List Char) : ofText? s =
    let whole := (splitSign s).2.takeWhile Char.isDigit
    let rest := splitPart ((splitSign s).2.dropWhile Char.isDigit)
    if whole.isEmpty && rest.1.isEmpty then none
    else (exponent? rest.2).map fun e =>
      ⟨(splitSign s).1, digitsValue (whole ++ rest.1), e - rest.1.length⟩ := rfl

theorem exists_splitPart (s : List Char) : ∃ part : Option (List Char), Digits (part.getD []) ∧
    s = part.elim [] ('.' :: ·) ++ (splitPart s).2 ∧ (splitPart s).1 = part.getD [] := by
  unfold splitPart
  split
  next r =>
    refine ⟨some (r.takeWhile Char.isDigit), List.all_eq_true.mp List.all_takeWhile, ?_, rfl⟩
    show _ = '.' :: (_ ++ _)
    rw [List.takeWhile_append_dropWhile]
  next => exact ⟨none, nofun, rfl, rfl⟩

theorem exists_of_exponent? {s : List Char} {e : ℤ} (h : exponent? s = some e) :
    ∃ x : Option Exponent, s = x.elim [] Exponent.text := by
  cases s with
  | nil => exact ⟨none, rfl⟩
  | cons c s =>
    rw [exponent?] at h
    split at h
    next hmark =>
      obtain ⟨sign, ds, hds, hne, rfl⟩ := exists_sign_of_wholeNumber? h
      exact ⟨some ⟨c, sign, ds, hmark, hds, hne⟩, rfl⟩
    next => cases h

end Decimal

open Decimal (splitPart exists_splitPart exists_of_exponent?)

namespace Numeral

variable (t : Numeral)

/-- The numeral as a decimal number: all its digits, and the power of ten of the last one. -/
def decimal : Decimal :=
  ⟨t.sign.isMinus, digitsValue (t.whole ++ t.decimals), t.power - t.decimals.length⟩

theorem value_decimal : t.decimal.value = t.value := by
  have hten : (10 : ℚ) ≠ 0 := by norm_num
  have hsigned : ∀ n : ℕ, ((signed t.sign.isMinus n : ℤ) : ℚ) =
      (if t.sign.isMinus then -1 else 1) * n := by
    intro n
    cases t.sign.isMinus <;> simp [signed]
  rw [Decimal.value, decimal, value, hsigned, digitsValue_append, zpow_sub₀ hten, zpow_natCast]
  push_cast
  field_simp

/-! ## Reading numerals -/

theorem isDigit_mark (x : Exponent) : x.mark.isDigit = false := by
  rcases x.isMark with h | h <;> rw [h] <;> rfl

theorem isDigit_head_exponentText : ∀ c ∈ t.exponentText.head?, c.isDigit = false := by
  unfold exponentText
  cases t.exponent with
  | none => nofun
  | some x =>
    intro c hc
    cases hc
    exact isDigit_mark x

theorem isDigit_head_rest : ∀ c ∈ (t.pointText ++ t.exponentText).head?, c.isDigit = false := by
  have hexponent := t.isDigit_head_exponentText
  unfold pointText
  cases t.part with
  | none => exact hexponent
  | some ds =>
    intro c hc
    cases hc
    rfl

/-- What follows the sign begins with a digit or the point. -/
theorem exists_head_rest : ∃ c s, t.whole ++ (t.pointText ++ t.exponentText) = c :: s ∧
    (c.isDigit = true ∨ c = '.') := by
  cases hwhole : t.whole with
  | cons c ds => exact ⟨c, _, rfl, .inl (t.isDigits c (hwhole ▸ List.mem_cons_self))⟩
  | nil =>
    have hpart : t.part.getD [] ≠ [] := t.nonempty.resolve_left (not_not_intro hwhole)
    unfold pointText
    cases hp : t.part with
    | none => exact absurd (by rw [hp]; rfl) hpart
    | some ds => exact ⟨'.', _, rfl, .inr rfl⟩

theorem unsigned_rest : Unsigned (t.whole ++ (t.pointText ++ t.exponentText)) := by
  obtain ⟨c, s, hs, hc⟩ := t.exists_head_rest
  rw [hs]
  intro d hd
  cases hd
  rcases hc with hdigit | rfl
  · exact ne_sign_of_isDigit hdigit
  · decide

theorem exponent?_exponentText : Decimal.exponent? t.exponentText = some t.power := by
  unfold exponentText power
  cases t.exponent with
  | none => rfl
  | some x =>
    show Decimal.exponent? x.text = some x.value
    rw [Exponent.text, Decimal.exponent?, if_pos x.isMark]
    exact wholeNumber?_text x.sign x.isDigits x.nonempty

theorem splitPart_rest :
    splitPart (t.pointText ++ t.exponentText) = (t.decimals, t.exponentText) := by
  have hdigits := t.isDigits_part
  unfold pointText decimals
  cases hpart : t.part with
  | some ds =>
    rw [hpart] at hdigits
    exact Prod.ext (Tag.takeWhile_append_of_head hdigits t.isDigit_head_exponentText)
      (Tag.dropWhile_append_of_head hdigits t.isDigit_head_exponentText)
  | none =>
    show splitPart t.exponentText = ([], t.exponentText)
    unfold exponentText
    cases t.exponent with
    | none => rfl
    | some x =>
      show splitPart x.text = ([], x.text)
      unfold splitPart
      split
      next r h =>
        have hmark : x.mark = '.' := (List.cons.inj h).1
        rcases x.isMark with he | he <;> rw [he] at hmark <;> cases hmark
      next => rfl

/-- Every numeral is read, as the decimal number of its digits. -/
theorem ofText?_text : Decimal.ofText? t.text = some t.decimal := by
  rw [Decimal.ofText?_eq, text, splitSign_text _ t.unsigned_rest]
  dsimp only
  rw [Tag.takeWhile_append_of_head t.isDigits t.isDigit_head_rest,
    Tag.dropWhile_append_of_head t.isDigits t.isDigit_head_rest, t.splitPart_rest]
  have hnonempty : ¬ (t.whole.isEmpty && t.decimals.isEmpty) = true := by
    have := t.nonempty
    unfold decimals
    simp only [Bool.and_eq_true, List.isEmpty_iff]
    tauto
  rw [if_neg hnonempty, t.exponent?_exponentText]
  rfl

/-- What is read as a decimal number is a numeral. -/
theorem exists_of_ofText? {s : List Char} {d : Decimal} (h : Decimal.ofText? s = some d) :
    ∃ t : Numeral, t.text = s := by
  obtain ⟨sign, hsign⟩ := exists_splitSign s
  rw [Decimal.ofText?_eq] at h
  dsimp only at h
  generalize (splitSign s).2 = body at hsign h
  obtain ⟨part, hdigits, hrest, hpart⟩ := exists_splitPart (body.dropWhile Char.isDigit)
  split at h
  next => cases h
  next hne =>
    obtain ⟨e, he, -⟩ := Option.map_eq_some_iff.mp h
    obtain ⟨x, hx⟩ := exists_of_exponent? he
    rw [Bool.and_eq_true, not_and_or, List.isEmpty_iff, List.isEmpty_iff, hpart] at hne
    refine ⟨⟨sign, body.takeWhile Char.isDigit, part, x, ?_, hdigits, hne⟩, ?_⟩
    · exact List.all_eq_true.mp List.all_takeWhile
    · show sign.text ++ (_ ++ (part.elim [] ('.' :: ·) ++ x.elim [] Exponent.text)) = s
      rw [← hx, ← hrest, List.takeWhile_append_dropWhile, ← hsign]

/-- What is read as a whole number is a numeral. -/
theorem exists_of_wholeNumber? {s : List Char} {n : ℤ} (h : wholeNumber? s = some n) :
    ∃ t : Numeral, t.text = s := by
  obtain ⟨sign, ds, hds, hne, rfl⟩ := exists_sign_of_wholeNumber? h
  refine ⟨⟨sign, ds, none, none, hds, nofun, .inl hne⟩, ?_⟩
  simp [text, pointText, exponentText]

/-! ## Plain numerals -/

section Plain

variable {t}

theorem text_of_plain (h : t.Plain) : t.text = t.sign.text ++ t.whole := by
  rw [text, pointText, exponentText, h.1, h.2]
  simp

theorem value_of_plain (h : t.Plain) :
    t.value = (signed t.sign.isMinus (digitsValue t.whole) : ℤ) := by
  have hdecimals : t.decimals = [] := congrArg (Option.getD · []) h.1
  have hpower : t.power = 0 := congrArg (fun x => Option.elim x 0 Exponent.value) h.2
  rw [value, hdecimals, hpower]
  cases t.sign.isMinus <;> simp [signed, digitsValue]

theorem wholeNumber?_of_plain (h : t.Plain) :
    wholeNumber? t.text = some (signed t.sign.isMinus (digitsValue t.whole)) := by
  have hdecimals : t.part.getD [] = [] := congrArg (Option.getD · []) h.1
  rw [text_of_plain h]
  exact wholeNumber?_text t.sign t.isDigits (t.nonempty.resolve_right (not_not_intro hdecimals))

theorem plain_of_wholeNumber? {n : ℤ} (h : wholeNumber? t.text = some n) : t.Plain := by
  have hall : Digits (t.whole ++ (t.pointText ++ t.exponentText)) := by
    rw [wholeNumber?, text, splitSign_text _ t.unsigned_rest] at h
    dsimp only at h
    split at h
    next => cases h
    next hds =>
      simp only [Bool.or_eq_true, Bool.not_eq_true', not_or, Bool.not_eq_false] at hds
      exact List.all_eq_true.mp hds.2
  -- The point and the mark of an exponent would be characters that are no digits.
  have hno : ∀ c ∈ t.pointText ++ t.exponentText, c.isDigit = true := fun c hc =>
    hall c (List.mem_append_right _ hc)
  constructor
  · cases hpart : t.part with
    | none => rfl
    | some ds =>
      have hpoint : '.' ∈ t.pointText := by
        rw [pointText, hpart]
        exact List.mem_cons_self
      exact absurd (hno '.' (List.mem_append_left _ hpoint)) (by decide)
  · cases hexponent : t.exponent with
    | none => rfl
    | some x =>
      have hmark : x.mark ∈ t.exponentText := by
        rw [exponentText, hexponent]
        exact List.mem_cons_self
      have hdigit := hno x.mark (List.mem_append_right _ hmark)
      rw [isDigit_mark x] at hdigit
      cases hdigit

/-- A numeral is read as a whole number if it is plain, and then as the number that it denotes. -/
theorem wholeNumber?_text_eq_some {n : ℤ} :
    wholeNumber? t.text = some n ↔ t.Plain ∧ t.value = n := by
  refine ⟨fun h => ?_, fun ⟨hplain, hvalue⟩ => ?_⟩
  · have hplain := plain_of_wholeNumber? h
    rw [wholeNumber?_of_plain hplain] at h
    rw [value_of_plain hplain, Option.some.inj h]
    exact ⟨hplain, rfl⟩
  · rw [value_of_plain hplain] at hvalue
    rw [wholeNumber?_of_plain hplain, Int.cast_injective hvalue]

end Plain

end Numeral

end FieldRules
