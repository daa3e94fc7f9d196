/-!
# Blank characters

Annotations are written by hand inside string literals, so blanks around keys and parameters carry
no meaning. Two sets of blanks are in use. `isBlank` is the `White_Space` property of Unicode and
decides what `trim` removes; `isAsciiBlank` is its part that separates the entries of an annotation
from the punctuation around them.

`trim` never removes anything but blanks from the two ends (`trimEnd_append_blank`), and a text that
does not end with a blank is its own `trimEnd` (`trimEnd_eq_self`).
-/

namespace FieldRules.Text

/-- The characters with the `White_Space` property of Unicode. -/
def isBlank (c : Char) : Bool :=
  let n := c.toNat
  (9 ≤ n && n ≤ 13) || n = 32 || n = 0x85 || n = 0xA0 || n = 0x1680 ||
    (0x2000 ≤ n && n ≤ 0x200A) || n = 0x2028 || n = 0x2029 || n = 0x202F || n = 0x205F || n = 0x3000

/-- Space, tab, line feed, form feed and carriage return. -/
def isAsciiBlank (c : Char) : Bool :=
  c = ' ' || c = '\t' || c = '\n' || c = '\x0c' || c = '\r'

theorem isBlank_of_isAsciiBlank {c : Char} (h : isAsciiBlank c = true) : isBlank c = true := by
  simp only [isAsciiBlank, Bool.or_eq_true, decide_eq_true_eq] at h
  rcases h with (((rfl | rfl) | rfl) | rfl) | rfl <;> decide

/-- The text without the blanks it starts with. -/
def trimStart (s : List Char) : List Char :=
  s.dropWhile isBlank

/-- The text without the blanks it ends with. -/
def trimEnd : List Char → List Char
  | [] => []
  | c :: s =>
    match trimEnd s with
    | [] => if isBlank c then [] else [c]
    | d :: t => c :: d :: t

/-- The text without the blanks at its two ends. -/
def trim (s : List Char) : List Char :=
  trimEnd (trimStart s)

theorem trimEnd_append_blank (s : List Char) :
    ∃ b, (∀ c ∈ b, isBlank c = true) ∧ trimEnd s ++ b = s := by
  induction s with
  | nil => exact ⟨[], by simp, rfl⟩
  | cons c s ih =>
    obtain ⟨b, hb, h⟩ := ih
    rw [trimEnd]
    split
    next h₀ =>
      rw [h₀] at h
      split
      next hc => exact ⟨c :: b, by simpa [hc] using hb, by simpa using h⟩
      next => exact ⟨b, hb, by simpa using h⟩
    next d t h₀ =>
      rw [h₀] at h
      exact ⟨b, hb, by simpa using h⟩

theorem trimEnd_eq_self {s : List Char} (h : ∀ c ∈ s.getLast?, isBlank c = false) :
    trimEnd s = s := by
  induction s with
  | nil => rfl
  | cons c s ih =>
    cases s with
    | nil => simp_all [trimEnd]
    | cons d t =>
      rw [trimEnd, ih (by simpa [List.getLast?_cons_cons] using h)]

end FieldRules.Text
