import Mathlib.Data.List.Nodup
import FieldRules.Proofs.Emit.Names

/-!
# Minting for any stems

`Names.mint` may be asked for names with any stems, not only with the four that routines use. The
names handed out are `Names.mintAll`; each is its stem and a number, and no stem gets a number twice
(`Names.nodup_numbered`). The same name may still be handed out twice, since a number stands behind
its stem without a mark between them: in a name that two stems have, the longer stem is the shorter
one and the front digits of the number behind it (`Names.exists_of_nth_eq`). So the names are
distinct just if no stem is a name of another one (`Names.mintAll_distinct`).
-/

namespace FieldRules.Names

/-- The names that are handed out for stems, one after the other. -/
def mintAll (names : Names) : List String → List String
  | [] => []
  | stem :: asked => (names.mint stem).1 :: mintAll (names.mint stem).2 asked

/-- The stems, each with the number of the name that is handed out for it. -/
def numbered (names : Names) : List String → List (String × Nat)
  | [] => []
  | stem :: asked => (stem, names.count stem) :: numbered (names.record stem) asked

variable {names : Names} {asked : List String} {stem a b : String} {i j : Nat}

theorem mintAll_eq_map (names : Names) (asked : List String) :
    mintAll names asked = (numbered names asked).map fun p => nth p.1 p.2 := by
  induction asked generalizing names with
  | nil => rfl
  | cons stem asked ih => rw [mintAll, mint_eq, numbered, List.map_cons, ih]

/-! ## Numbers -/

/-- A stem gets the numbers that follow those it had before, one each time it is asked for. -/
theorem mem_numbered : (stem, i) ∈ numbered names asked ↔
    names.count stem ≤ i ∧ i < names.count stem + asked.count stem := by
  induction asked generalizing names with
  | nil => simp [numbered]
  | cons s asked ih =>
    rw [numbered, List.mem_cons, ih, Prod.mk.injEq, count_record, List.count_cons]
    by_cases h : stem = s
    · subst h
      simp only [beq_self_eq_true, if_true, true_and]
      omega
    · have hne : (s == stem) = false := beq_false_of_ne (Ne.symm h)
      simp [h, hne]

theorem mem_numbered_nil : (stem, i) ∈ numbered [] asked ↔ i < asked.count stem := by
  rw [mem_numbered, count_nil]
  omega

theorem nodup_numbered (names : Names) (asked : List String) : (numbered names asked).Nodup := by
  induction asked generalizing names with
  | nil => exact List.nodup_nil
  | cons stem asked ih =>
    refine List.nodup_cons.mpr ⟨fun h => ?_, ih _⟩
    have hle := (mem_numbered.mp h).1
    rw [count_record, if_pos rfl] at hle
    omega

/-! ## Names that two stems have -/

/-- What a name has behind its stem. -/
def digits (i : Nat) : List Char := if i = 0 then [] else Nat.toDigits 10 i

theorem toList_nth (stem : String) (i : Nat) : (nth stem i).toList = stem.toList ++ digits i := by
  unfold nth digits
  split
  · rw [List.append_nil]
  · rw [String.toList_append, Nat.toString_eq_repr, Nat.toList_repr]

theorem isPrefix_nth (stem : String) (i : Nat) : stem.toList <+: (nth stem i).toList := by
  rw [toList_nth]
  exact List.prefix_append _ _

/-- A name is the first one of the stem that is spelled like it. -/
theorem nth_eq_nth_zero (stem : String) {k : Nat} (hk : 0 < k) :
    nth stem k = nth (stem ++ toString k) 0 := by
  rw [nth, if_neg (by omega), nth, if_pos rfl]

/-- The front digits of a positive number are those of a positive number that is not greater. -/
theorem exists_of_isPrefix_toDigits (hj : 0 < j) {ds : List Char} (hne : ds ≠ [])
    (h : ds <+: Nat.toDigits 10 j) : ∃ k, 0 < k ∧ k ≤ j ∧ ds = Nat.toDigits 10 k := by
  induction j using Nat.strongRecOn with
  | ind j ih =>
    by_cases hsmall : j < 10
    · rw [Nat.toDigits_of_lt_base hsmall, ← List.nil_append [_], List.prefix_concat_iff] at h
      refine ⟨j, hj, Nat.le_refl j, ?_⟩
      rw [Nat.toDigits_of_lt_base hsmall]
      exact h.resolve_right fun hnil => hne (List.prefix_nil.mp hnil)
    · have hsplit := Nat.toDigits_of_base_le (b := 10) (n := j) (by omega) (by omega)
      rw [hsplit, List.prefix_concat_iff, ← hsplit] at h
      rcases h with hall | hfront
      · exact ⟨j, hj, Nat.le_refl j, hall⟩
      · obtain ⟨k, hk, hle, hds⟩ := ih (j / 10) (by omega) (by omega) hfront
        exact ⟨k, hk, by omega, hds⟩

/-- If the longer of two stems has the digits `ds` behind the shorter one, and a number of the
shorter one begins with them, then the longer stem is a name of the shorter one. -/
theorem exists_of_digits_eq {ds : List Char} (hab : a ≠ b) (ha : a.toList = b.toList ++ ds)
    (hds : digits j = ds ++ digits i) : ∃ k, 0 < k ∧ k ≤ j ∧ a = b ++ toString k := by
  have hne : ds ≠ [] := by
    rintro rfl
    exact hab (String.toList_injective (by rw [ha, List.append_nil]))
  have hj : j ≠ 0 := by
    rintro rfl
    exact hne (List.append_eq_nil_iff.mp hds.symm).1
  rw [digits, if_neg hj] at hds
  obtain ⟨k, hk, hle, rfl⟩ := exists_of_isPrefix_toDigits (Nat.pos_of_ne_zero hj) hne ⟨_, hds.symm⟩
  refine ⟨k, hk, hle, String.toList_injective ?_⟩
  rw [ha, String.toList_append, Nat.toString_eq_repr, Nat.toList_repr]

/-- Of two stems that have a name in common, one is a name of the other, with a number that is not
greater than the one in that name. -/
theorem exists_of_nth_eq (hab : a ≠ b) (h : nth a i = nth b j) :
    (∃ k, 0 < k ∧ k ≤ j ∧ a = b ++ toString k) ∨ ∃ k, 0 < k ∧ k ≤ i ∧ b = a ++ toString k := by
  have htext : a.toList ++ digits i = b.toList ++ digits j := by
    rw [← toList_nth, ← toList_nth, h]
  rcases List.append_eq_append_iff.mp htext with ⟨ds, hb, hds⟩ | ⟨ds, ha, hds⟩
  · exact .inr (exists_of_digits_eq hab.symm hb hds)
  · exact .inl (exists_of_digits_eq hab ha hds)

/-! ## Distinct names -/

/-- None of the stems is another one with a number that this one gets. -/
def Unambiguous (asked : List String) : Prop :=
  ∀ stem ∈ asked, ∀ k < asked.count stem, 0 < k → stem ++ toString k ∉ asked

instance (asked : List String) : Decidable (Unambiguous asked) :=
  inferInstanceAs (Decidable (∀ stem ∈ asked, ∀ k < asked.count stem, 0 < k →
    stem ++ toString k ∉ asked))

theorem Unambiguous.eq_of_nth_eq (h : Unambiguous asked) (hi : i < asked.count a)
    (hj : j < asked.count b) (heq : nth a i = nth b j) : a = b := by
  by_contra hab
  have ha : a ∈ asked := List.count_pos_iff.mp (by omega)
  have hb : b ∈ asked := List.count_pos_iff.mp (by omega)
  rcases exists_of_nth_eq hab heq with ⟨k, hk, hle, rfl⟩ | ⟨k, hk, hle, rfl⟩
  · exact h b hb k (by omega) hk ha
  · exact h a ha k (by omega) hk hb

theorem nodup_mintAll_iff (asked : List String) : (mintAll [] asked).Nodup ↔ Unambiguous asked := by
  rw [mintAll_eq_map, List.nodup_map_iff_inj_on (nodup_numbered [] asked)]
  constructor
  · intro hinj stem _ k hlt hk hmem
    have hlater : (stem, k) ∈ numbered [] asked := mem_numbered_nil.mpr hlt
    have hfirst : (stem ++ toString k, 0) ∈ numbered [] asked :=
      mem_numbered_nil.mpr (List.count_pos_iff.mpr hmem)
    have hpair := hinj _ hlater _ hfirst (nth_eq_nth_zero stem hk)
    have hzero : k = 0 := congrArg Prod.snd hpair
    omega
  · rintro h ⟨a, i⟩ ha ⟨b, j⟩ hb heq
    obtain rfl := h.eq_of_nth_eq (mem_numbered_nil.mp ha) (mem_numbered_nil.mp hb) heq
    exact congrArg (Prod.mk a) (nth_right_inj heq)

/-- The stems that routines use differ in a letter, so that none is a name of another. -/
theorem unambiguous_of_subset (h : asked ⊆ stems) : Unambiguous asked := by
  intro stem hstem k _ hk hmem
  have hzero : k = 0 := (nth_inj (h hstem) (h hmem) (nth_eq_nth_zero stem hk)).2
  omega

theorem forall₂_mintAll (names : Names) (asked : List String) :
    List.Forall₂ (fun stem name => stem.toList <+: name.toList) asked (mintAll names asked) := by
  induction asked generalizing names with
  | nil => exact .nil
  | cons stem asked ih => exact .cons (isPrefix_nth stem _) (ih _)

/-- **When minted names are distinct.** Whatever stems names are asked for with, and in whatever
order, every name begins with its stem. The names are distinct just if none of the stems is another
one with a number that this one gets, and so they are for the stems that routines use. -/
theorem mintAll_distinct (asked : List String) :
    List.Forall₂ (fun stem name => stem.toList <+: name.toList) asked (mintAll [] asked) ∧
      ((mintAll [] asked).Nodup ↔ Unambiguous asked) ∧
      (asked ⊆ stems → (mintAll [] asked).Nodup) :=
  ⟨forall₂_mintAll [] asked, nodup_mintAll_iff asked,
    fun h => (nodup_mintAll_iff asked).mpr (unambiguous_of_subset h)⟩

/-- Names of routines, and names of stems of which one ends with a digit that the other does not
reach. -/
theorem mintAll_distinct_items :
    (([itemStem, keyStem, itemStem] ⊆ stems) ∧ (mintAll [] [itemStem, keyStem, itemStem]).Nodup) ∧
      (mintAll [] ["x", "x2", "x"]).Nodup ∧ mintAll [] ["x", "x2", "x"] = ["x", "x2", "x1"] := by
  have hsubset : [itemStem, keyStem, itemStem] ⊆ stems := by decide
  have hclear : Unambiguous ["x", "x2", "x"] := by decide +kernel
  exact ⟨⟨hsubset, (mintAll_distinct _).2.2 hsubset⟩, (mintAll_distinct _).2.1.mpr hclear, rfl⟩

/-- A stem that is the second name of another one: its first name is handed out twice. -/
theorem mintAll_repeats :
    mintAll [] ["x", "x", "x1"] = ["x", "x1", "x1"] ∧ ¬ (mintAll [] ["x", "x", "x1"]).Nodup := by
  decide

end FieldRules.Names
