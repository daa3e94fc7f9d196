import FieldRules.Emit.Names

/-!
# Minted names

The names that a routine binds have one of four `stems`, which differ in one letter. The name number
`i` with a stem is `Names.nth stem i`, and both can be read off it (`Names.nth_inj`), so that no two
names handed out for the four stems are the same.

`Names.Between n n' x` says that `x` is handed out on the way from `n` to `n'`. Names of successive
stretches are different (`Names.Between.ne`).
-/

namespace FieldRules.Names

/-- The stems of the names that routines bind. -/
def stems : List String := [itemStem, keyStem, valueStem, presentStem]

/-- The name number `i` with a stem. -/
def nth (stem : String) (i : Nat) : String := if i = 0 then stem else stem ++ toString i

theorem mint_eq (stem : String) (n : Names) :
    n.mint stem = (nth stem (n.count stem), n.record stem) := rfl

theorem count_nil (stem : String) : count stem [] = 0 := rfl

theorem count_cons (stem s : String) (i : Nat) (n : Names) :
    count stem ((s, i) :: n) = if stem = s then i else n.count stem := by
  by_cases h : stem = s
  · simp [count, h]
  · have : (stem == s) = false := by simpa using h
    simp [count, List.lookup_cons, h, this]

theorem count_record (stem other : String) (n : Names) :
    (n.record other).count stem = n.count stem + if stem = other then 1 else 0 := by
  induction n with
  | nil => rw [record, count_cons, count_nil]; split <;> rfl
  | cons p n ih =>
    obtain ⟨s, i⟩ := p
    rw [record]
    split
    next hs =>
      subst hs
      rw [count_cons, count_cons]
      split <;> rfl
    next hs =>
      rw [count_cons, count_cons, ih]
      split
      next h => rw [h, if_neg hs]; rfl
      next => rfl

/-! ## Stems -/

/-- The letter that tells the stems apart: the first one after what they have in common. -/
def letter (name : String) : Option Char := name.toList[9]?

theorem letter_inj : ∀ a ∈ stems, ∀ b ∈ stems, letter a = letter b → a = b := by decide

/-- The letters of the stems. -/
def letters : List (Option Char) := [some 'i', some 'k', some 'v', some 'p']

theorem letter_mem_letters : ∀ stem ∈ stems, letter stem ∈ letters := by decide

theorem letter_of_isPrefix {stem name : String} (h : stem ∈ stems)
    (hp : stem.toList <+: name.toList) : letter name = letter stem := by
  have hlen : ∀ a ∈ stems, 9 < a.toList.length := by decide
  obtain ⟨rest, hr⟩ := hp
  rw [letter, letter, ← hr, List.getElem?_append_left (hlen stem h)]

theorem letter_append {stem : String} (h : stem ∈ stems) (s : String) :
    letter (stem ++ s) = letter stem := by
  refine letter_of_isPrefix h ?_
  rw [String.toList_append]
  exact List.prefix_append _ _

theorem letter_nth {stem : String} (h : stem ∈ stems) (i : Nat) :
    letter (nth stem i) = letter stem := by
  unfold nth
  split
  · rfl
  · exact letter_append h _

theorem toString_inj {i j : Nat} (h : toString i = toString j) : i = j := by
  have hd : Nat.toDigits 10 i = Nat.toDigits 10 j := by
    rw [← Nat.toList_repr, ← Nat.toList_repr]
    exact congrArg String.toList h
  rw [← Nat.ofDigitChars_ten_toDigits (n := i), hd, Nat.ofDigitChars_ten_toDigits]

theorem nth_right_inj {stem : String} {i j : Nat} (h : nth stem i = nth stem j) : i = j := by
  have hpos : ∀ m : Nat, stem ++ toString m ≠ stem := by
    intro m hm
    have hl := congrArg String.length hm
    have := Nat.length_repr_pos (n := m)
    rw [String.length_append] at hl
    simp only [Nat.toString_eq_repr] at hl
    omega
  unfold nth at h
  split at h <;> split at h
  · omega
  · exact absurd h.symm (hpos j)
  · exact absurd h (hpos i)
  · exact toString_inj ((String.append_right_inj _).mp h)

/-- A name tells its stem and its number. -/
theorem nth_inj {a b : String} {i j : Nat} (ha : a ∈ stems) (hb : b ∈ stems)
    (h : nth a i = nth b j) : a = b ∧ i = j := by
  have hab : a = b := letter_inj a ha b hb (by rw [← letter_nth ha i, h, letter_nth hb j])
  subst hab
  exact ⟨rfl, nth_right_inj h⟩

theorem mint_ne {a b : String} (ha : a ∈ stems) (hb : b ∈ stems) (hab : a ≠ b) (n n' : Names) :
    (n.mint a).1 ≠ (n'.mint b).1 :=
  fun h => hab (nth_inj ha hb h).1

/-! ## Stretches of minting -/

/-- Every stem has been used at least as often. -/
def Le (n n' : Names) : Prop := ∀ stem, n.count stem ≤ n'.count stem

theorem Le.refl (n : Names) : Le n n := fun _ => Nat.le_refl _

theorem Le.trans {n₁ n₂ n₃ : Names} (h : Le n₁ n₂) (h' : Le n₂ n₃) : Le n₁ n₃ :=
  fun stem => Nat.le_trans (h stem) (h' stem)

theorem le_mint (stem : String) (n : Names) : Le n (n.mint stem).2 := by
  intro other
  rw [mint_eq, count_record]
  omega

/-- The name is handed out on the way from `n` to `n'`. -/
def Between (n n' : Names) (x : String) : Prop :=
  ∃ stem ∈ stems, ∃ i, n.count stem ≤ i ∧ i < n'.count stem ∧ x = nth stem i

theorem between_mint {stem : String} (h : stem ∈ stems) (n : Names) :
    Between n (n.mint stem).2 (n.mint stem).1 := by
  refine ⟨stem, h, n.count stem, Nat.le_refl _, ?_, rfl⟩
  rw [mint_eq, count_record, if_pos rfl]
  omega

theorem Between.mono {n₁ n₂ n₃ n₄ : Names} {x : String} (h : Between n₂ n₃ x) (h₁ : Le n₁ n₂)
    (h₃ : Le n₃ n₄) : Between n₁ n₄ x := by
  obtain ⟨stem, hs, i, hi, hi', rfl⟩ := h
  exact ⟨stem, hs, i, Nat.le_trans (h₁ stem) hi, Nat.lt_of_lt_of_le hi' (h₃ stem), rfl⟩

theorem Between.ne {n₁ n₂ n₃ n₄ : Names} {x y : String} (hx : Between n₁ n₂ x) (hn : Le n₂ n₃)
    (hy : Between n₃ n₄ y) : x ≠ y := by
  obtain ⟨a, ha, i, -, hi, rfl⟩ := hx
  obtain ⟨b, hb, j, hj, -, rfl⟩ := hy
  intro h
  obtain ⟨rfl, rfl⟩ := nth_inj ha hb h
  have := hn a
  omega

end FieldRules.Names
