import FieldRules.Proofs.Emit.Renaming

/-!
# Code from different scopes

What was minted before changes only the numbers of the names that code binds. A plan mints as many
names with a stem wherever its code is emitted (`Plan.count_emit`), so that the names of two runs
correspond by their order (`Aligned`), and the code of one run is that of the other with its
variables renamed (`Plan.Clean.emitsRenamed`). Moving the one stretch of numbers to the other is a
`Names.Renumbering`: it is injective, keeps the stem of a minted name, and changes no other name
(`Plan.emit_renumbers`).

The symbols that code adds to its scope do not depend on the scope at all (`Plan.adds_emit`).
-/

namespace FieldRules

namespace Names

/-! ## Numbers of names -/

variable {stem name : String}

/-- The number of a name with the given stem. -/
def numberOf (stem name : String) : Option Nat :=
  let i := Nat.ofDigitChars 10 (name.toList.drop stem.toList.length) 0
  if nth stem i = name then some i else none

theorem eq_nth_of_numberOf {i : Nat} (h : numberOf stem name = some i) : name = nth stem i := by
  rw [numberOf] at h
  split at h
  next heq =>
    cases h
    exact heq.symm
  next => cases h

theorem numberOf_nth (stem : String) (i : Nat) : numberOf stem (nth stem i) = some i := by
  have hdigits : Nat.ofDigitChars 10 ((nth stem i).toList.drop stem.toList.length) 0 = i := by
    unfold nth
    split
    next hi => simp [hi]
    next =>
      rw [String.toList_append, List.drop_left, Nat.toString_eq_repr, Nat.toList_repr,
        Nat.ofDigitChars_ten_toDigits]
  simp [numberOf, hdigits]

/-- The name with its number changed by `g`, which knows the stem; other names stay as they are. -/
def renumber (g : String → Nat → Nat) (name : String) : String :=
  (stems.findSome? fun stem => (numberOf stem name).map fun i => nth stem (g stem i)).getD name

theorem renumber_nth (g : String → Nat → Nat) (hstem : stem ∈ stems) (i : Nat) :
    renumber g (nth stem i) = nth stem (g stem i) := by
  rw [renumber]
  cases h : stems.findSome? fun other =>
      (numberOf other (nth stem i)).map fun j => nth other (g other j) with
  | none =>
    have hnone := List.findSome?_eq_none_iff.mp h stem hstem
    rw [numberOf_nth] at hnone
    cases hnone
  | some x =>
    obtain ⟨other, hother, hx⟩ := List.exists_of_findSome?_eq_some h
    obtain ⟨j, hj, rfl⟩ := Option.map_eq_some_iff.mp hx
    obtain ⟨rfl, rfl⟩ := nth_inj hstem hother (eq_nth_of_numberOf hj)
    rfl

theorem renumber_of_ne (g : String → Nat → Nat) (h : ∀ stem ∈ stems, ∀ i, name ≠ nth stem i) :
    renumber g name = name := by
  have hnone : (stems.findSome? fun stem =>
      (numberOf stem name).map fun i => nth stem (g stem i)) = none := by
    refine List.findSome?_eq_none_iff.mpr fun stem hstem => ?_
    rw [Option.map_eq_none_iff, Option.eq_none_iff_forall_ne_some]
    exact fun i hi => h stem hstem i (eq_nth_of_numberOf hi)
  rw [renumber, hnone, Option.getD_none]

/-- The renaming changes at most the numbers of minted names, and no two names become the same. -/
structure Renumbering (ρ : String → String) : Prop where
  injective : Function.Injective ρ
  /-- A minted name keeps its stem. -/
  stem : ∀ stem ∈ stems, ∀ i, ∃ j, ρ (nth stem i) = nth stem j
  /-- Other names stay as they are. -/
  keeps : ∀ name, (∀ stem ∈ stems, ∀ i, name ≠ nth stem i) → ρ name = name

theorem Renumbering.keepsWords {ρ : String → String} (h : Renumbering ρ) : KeepsWords ρ := by
  refine fun name hname => h.keeps name fun stem hstem i heq => ?_
  rw [heq, isMinted_nth hstem] at hname
  cases hname

theorem renumbering_id : Renumbering id where
  injective := fun _ _ h => h
  stem := fun _ _ i => ⟨i, rfl⟩
  keeps := fun _ _ => rfl

/-- Numbers that are changed injectively for each stem renumber the names. -/
theorem renumbering_renumber {g : String → Nat → Nat}
    (hg : ∀ stem i j, g stem i = g stem j → i = j) : Renumbering (renumber g) where
  injective := by
    intro x y h
    by_cases hx : ∃ stem ∈ stems, ∃ i, x = nth stem i
    · obtain ⟨stem, hstem, i, rfl⟩ := hx
      by_cases hy : ∃ stem ∈ stems, ∃ j, y = nth stem j
      · obtain ⟨other, hother, j, rfl⟩ := hy
        rw [renumber_nth g hstem, renumber_nth g hother] at h
        obtain ⟨rfl, hij⟩ := nth_inj hstem hother h
        rw [hg _ i j hij]
      · have hy' : ∀ stem ∈ stems, ∀ j, y ≠ nth stem j := fun stem hstem j hj =>
          hy ⟨stem, hstem, j, hj⟩
        rw [renumber_nth g hstem, renumber_of_ne g hy'] at h
        exact absurd h.symm (hy' stem hstem _)
    · have hx' : ∀ stem ∈ stems, ∀ i, x ≠ nth stem i := fun stem hstem i hi =>
        hx ⟨stem, hstem, i, hi⟩
      rw [renumber_of_ne g hx'] at h
      by_cases hy : ∃ stem ∈ stems, ∃ j, y = nth stem j
      · obtain ⟨other, hother, j, rfl⟩ := hy
        rw [renumber_nth g hother] at h
        exact absurd h (hx' other hother _)
      · rwa [renumber_of_ne g fun stem hstem j hj => hy ⟨stem, hstem, j, hj⟩] at h
  stem := fun stem hstem i => ⟨g stem i, renumber_nth g hstem i⟩
  keeps := fun _ h => renumber_of_ne g h

/-! ## Moving a stretch of numbers -/

/-- Moves the `m` numbers from `a` on to the numbers from `b` on. The numbers that are in the way
close the gap. -/
def moveBlock (a b m i : Nat) : Nat :=
  if a ≤ i ∧ i < a + m then b + (i - a)
  else if a + m ≤ i ∧ i < b + m then i - m
  else if b ≤ i ∧ i < a then i + m
  else i

theorem moveBlock_inj {a b m i j : Nat} (h : moveBlock a b m i = moveBlock a b m j) : i = j := by
  grind [moveBlock]

theorem moveBlock_add {a m j : Nat} (b : Nat) (hj : j < m) : moveBlock a b m (a + j) = b + j := by
  rw [moveBlock, if_pos (by omega)]
  omega

theorem moveBlock_of_lt {a b i : Nat} (m : Nat) (ha : i < a) (hb : i < b) :
    moveBlock a b m i = i := by
  rw [moveBlock, if_neg (by omega), if_neg (by omega), if_neg (by omega)]

/-- Moves the next `m stem` names of `n` with each stem to those of `n'`. -/
def move (n n' : Names) (m : String → Nat) : String → String :=
  renumber fun stem => moveBlock (n.count stem) (n'.count stem) (m stem)

theorem renumbering_move (n n' : Names) (m : String → Nat) : Renumbering (move n n' m) :=
  renumbering_renumber fun _ _ _ => moveBlock_inj

/-- Names that were minted before in both scopes are not moved. -/
theorem move_of_before {n n' : Names} {name : String} (h : Between [] n name)
    (h' : Between [] n' name) (m : String → Nat) : move n n' m name = name := by
  obtain ⟨stem, hstem, i, -, hi, rfl⟩ := h
  obtain ⟨other, hother, j, -, hj, heq⟩ := h'
  obtain ⟨rfl, rfl⟩ := nth_inj hstem hother heq
  rw [move, renumber_nth _ hstem, moveBlock_of_lt _ hi hj]

end Names

/-! ## Names that correspond -/

open Names (stems nth)

/-- The renaming takes the next `m stem` names with each stem to those of the other scope. -/
def Aligned (ρ : String → String) (n n' : Names) (m : String → Nat) : Prop :=
  ∀ stem ∈ stems, ∀ j < m stem, ρ (nth stem (n.count stem + j)) = nth stem (n'.count stem + j)

theorem aligned_move (n n' : Names) (m : String → Nat) : Aligned (n.move n' m) n n' m := by
  intro stem hstem j hj
  rw [Names.move, Names.renumber_nth _ hstem, Names.moveBlock_add _ hj]

namespace Aligned

variable {ρ : String → String} {n n' n₁ n₁' : Names} {m m₁ : String → Nat} {stem : String}

theorem mint (h : Aligned ρ n n' m) (hstem : stem ∈ stems) (hm : 0 < m stem) :
    ρ (n.mint stem).1 = (n'.mint stem).1 :=
  h stem hstem 0 hm

/-- The names after the first ones. -/
theorem after {k : String → Nat} (h : Aligned ρ n n' m)
    (hn : ∀ stem, n₁.count stem = n.count stem + k stem)
    (hn' : ∀ stem, n₁'.count stem = n'.count stem + k stem)
    (hm : ∀ stem, k stem + m₁ stem ≤ m stem) : Aligned ρ n₁ n₁' m₁ := by
  intro stem hstem j hj
  have hm := hm stem
  rw [hn, hn', Nat.add_assoc, Nat.add_assoc]
  exact h stem hstem _ (by omega)

theorem mono (h : Aligned ρ n n' m) (hm : ∀ stem, m₁ stem ≤ m stem) : Aligned ρ n n' m₁ :=
  fun stem hstem j hj => h stem hstem j (Nat.lt_of_lt_of_le hj (hm stem))

end Aligned

namespace Plan

/-- One if the stems are the same. -/
def one (stem other : String) : Nat := if other = stem then 1 else 0

mutual

/-- How many names with the stem are minted when code is emitted for a plan. -/
def mints : Plan → String → Nat
  | .scalar .., _ => 0
  | .optional _ inner, stem => one presentStem stem + inner.mints stem
  | .array _ item, stem => one itemStem stem + item.mints stem
  | .map _ k v, stem => one keyStem stem + one valueStem stem + k.mints stem + v.mints stem
  | .inline fields _, stem => mintsFields fields stem
  | .delegated _, _ => 0
  | .wrapper _ _ inner _, stem => inner.mints stem
  | .interface .., _ => 0
  | .skip, _ => 0

/-- How many names with the stem are minted for the fields of a struct. -/
def mintsFields : List (Field Plan) → String → Nat
  | [], _ => 0
  | ⟨_, _, plan⟩ :: rest, stem => plan.mints stem + mintsFields rest stem

end

theorem one_self (stem : String) : one stem stem = 1 := if_pos rfl

theorem count_minted_names (s : Scope) (stem other : String) :
    (s.minted stem).names.count other = s.names.count other + one stem other := by
  rw [Scope.minted, Names.mint_eq, Names.count_record, one]

theorem count_emitFields {fields : List (Field Plan)} {stem : String}
    (h : ∀ f ∈ fields, ∀ c s,
      (f.node.emit c s).2.names.count stem = s.names.count stem + f.node.mints stem)
    (c : Context) (s : Scope) :
    (emitFields fields c s).2.names.count stem = s.names.count stem + mintsFields fields stem := by
  induction fields generalizing s with
  | nil => rfl
  | cons f fields ih =>
    rw [emitFields_cons, ih fun g hg => h g (List.mem_cons_of_mem f hg), h f List.mem_cons_self,
      mintsFields, Nat.add_assoc]

/-- A plan mints as many names wherever its code is emitted. -/
theorem count_emit (p : Plan) (c : Context) (s : Scope) (stem : String) :
    (p.emit c s).2.names.count stem = s.names.count stem + p.mints stem := by
  induction p using Plan.induct generalizing c s with
  | scalar check chain => rw [emit_scalar, names_chain, names_scalarCheck]; rfl
  | optional nullable inner ih =>
    have hnames : ∀ s : Scope, (if nullable then s else s.requireFailure).names = s.names := by
      intro s
      cases nullable <;> rfl
    rw [emit_optional, hnames, ih, count_minted_names, mints, Nat.add_assoc]
  | array size item ih =>
    rw [emit_array, ih, count_minted_names, names_emitSize, mints, Nat.add_assoc]
  | map size k v ihk ihv =>
    rw [emit_map, ihv, ihk, count_minted_names, count_minted_names, names_emitSize, mints]
    omega
  | inline fields chain ih =>
    rw [emit_inline, names_chain, count_emitFields ih, mints]
  | delegated chain => rw [emit_delegated, names_chain]; rfl
  | wrapper ty mode inner chain ih => rw [emit_wrapper, names_chain, ih, mints]
  | interface indirect chain => rw [emit_interface, names_chain]; rfl
  | skip => rfl

end Plan

/-! ## Emission -/

/-- The contexts have the same path, and the second is reached as the first with its variables
renamed. -/
structure Context.Renames (ρ : String → String) (c c' : Context) : Prop where
  field : c.field = c'.field
  reach : renameVars ρ c.reach.tokens = c'.reach.tokens

namespace Context.Renames

variable {ρ : String → String} {c c' : Context}

theorem member (h : Renames ρ c c') (field : Member) (name : String) :
    Renames ρ (c.member field name) (c'.member field name) where
  field := congrArg (join · name) h.field
  reach := renameVars_member h.reach field

theorem wrapped (h : Renames ρ c c') (mode : WrapperMode) :
    Renames ρ (Plan.wrapped c mode) (Plan.wrapped c' mode) := by
  cases mode with
  | transparent => exact h
  | newtype => exact h.member (.index 0) ""

theorem pointee (h : Renames ρ c c') : Renames ρ c.pointee c'.pointee where
  field := h.field
  reach := renameVars_pointee h.reach

theorem minted {stem : String} {n n' : Names} (h : Renames ρ c c')
    (hname : ρ (n.mint stem).1 = (n'.mint stem).1) (suffix : String) :
    Renames ρ (c.minted stem suffix n) (c'.minted stem suffix n') where
  field := congrArg (· ++ suffix) h.field
  reach := congrArg (fun name => [Token.ident name]) hname

end Context.Renames

section

variable {ρ : String → String} {c c' : Context} (s s' : Scope)

theorem renames_emitLimits {α : Type} (limits : Limits (Bound α)) {test test' : Side → α → Test}
    (lower upper : Bound α → Violation) (field : String) (hρ : KeepsWords ρ)
    (htest : ∀ side a, renameVars ρ (test side a).tokens = (test' side a).tokens) :
    Renames ρ (emitLimits limits test lower upper field s).1
      (emitLimits limits test' lower upper field s').1 :=
  .append (.map fun _ _ => hρ.renameVars_guard (htest _ _) _)
    (.map fun _ _ => hρ.renameVars_guard (htest _ _) _)

variable (hρ : KeepsWords ρ) (hc : c.Renames ρ c')
include hρ hc

theorem renames_emitSize (size : Limits (Bound Nat)) :
    Renames ρ (emitSize size c s).1 (emitSize size c' s').1 := by
  rw [emitSize, emitSize, hc.field]
  exact renames_emitLimits s s' _ _ _ _ hρ fun side a => renameVars_size hc.reach side a

theorem renames_scalarCheck (check : ScalarCheck) :
    Renames ρ (check.emit c s).1 (check.emit c' s').1 := by
  cases check with
  | integer range =>
    rw [ScalarCheck.emit_integer, ScalarCheck.emit_integer, hc.field]
    have hguards := renames_emitLimits s s' range (Violation.belowMinimum ·.text)
      (Violation.aboveMaximum ·.text) c'.field hρ hρ.renameVars_wide
    exact hguards.unlessEmpty (hρ.renameVars_widen hc.reach hguards)
  | float range =>
    rw [ScalarCheck.emit, ScalarCheck.emit, hc.field]
    exact renames_emitLimits s s' range _ _ _ hρ (hρ.renameVars_float hc.reach)
  | string length =>
    rw [ScalarCheck.emit_string, ScalarCheck.emit_string, hc.field]
    have hguards := renames_emitLimits s s' length (Violation.tooShort ·.value)
      (Violation.tooLong ·.value) c'.field hρ hρ.renameVars_length
    exact hguards.unlessEmpty (hρ.renameVars_measure hc.reach hguards)
  | byte => exact .nil
  | bool => exact .nil

theorem renames_chain {chain : Chain} {receiver : Receiver}
    (hchain : ∀ ts ∈ chain.supplied, Free ts) (hreceiver : Free receiver.supplied) :
    Renames ρ (chain.emit c receiver s).1 (chain.emit c' receiver s').1 := by
  rw [Chain.emit, Chain.emit, hc.field]
  refine .map fun v hv => hρ.renameVars_callStatement ?_ _
  exact hρ.renameVars_call hc.reach (hchain _ (List.mem_map_of_mem hv)) hreceiver

end

namespace Plan

variable {ρ : String → String}

theorem renames_presence (hρ : KeepsWords ρ) {c c' : Context} (hc : c.Renames ρ c')
    {ss us : List Statement} (h : Renames ρ ss us) {name name' : String} (hname : ρ name = name')
    (nullable : Bool) :
    Renames ρ (presence nullable name c ss) (presence nullable name' c' us) := by
  subst hname
  rw [presence, presence, h.isEmpty_eq, hc.field]
  split
  · exact h.unlessEmpty (hρ.renameVars_ifPresent hc.reach h name)
  · split
    · exact .singleton (hρ.renameVars_guard (renameVars_absent hc.reach) _)
    · exact .singleton (hρ.renameVars_matchPresent hc.reach h name _)

theorem map_partName (ρ : String → String) {ss us : List Statement} (h : Renames ρ ss us)
    (name : String) : (partName name ss).map ρ = partName (ρ name) us := by
  rw [partName, partName, h.isEmpty_eq]
  split <;> rfl

/-- From scopes whose next names correspond, code for the plan differs by the renaming. -/
def EmitsRenamed (ρ : String → String) (p : Plan) : Prop :=
  ∀ (c c' : Context) (s s' : Scope), c.Renames ρ c' → Aligned ρ s.names s'.names p.mints →
    Renames ρ (p.emit c s).1 (p.emit c' s').1

section

variable (hρ : KeepsWords ρ)
include hρ

theorem emitsRenamed_scalar {check : ScalarCheck} {chain : Chain}
    (hp : (scalar check chain).Clean) : (scalar check chain).EmitsRenamed ρ := by
  intro c c' s s' hc _
  rw [emit_scalar, emit_scalar]
  exact (renames_scalarCheck s s' hρ hc check).append (renames_chain _ _ hρ hc hp free_nil)

theorem emitsRenamed_optional (nullable : Bool) {inner : Plan} (h : inner.EmitsRenamed ρ) :
    (optional nullable inner).EmitsRenamed ρ := by
  intro c c' s s' hc hnames
  have hname : ρ (s.names.mint presentStem).1 = (s'.names.mint presentStem).1 :=
    hnames.mint (by decide) (by simp only [mints, one_self]; omega)
  have hinner : Aligned ρ (s.minted presentStem).names (s'.minted presentStem).names inner.mints :=
    hnames.after (count_minted_names s _) (count_minted_names s' _) fun _ => Nat.le_refl _
  rw [emit_optional, emit_optional]
  exact renames_presence hρ hc (h _ _ _ _ (hc.minted hname "") hinner) hname nullable

theorem emitsRenamed_array (size : Limits (Bound Nat)) {item : Plan} (h : item.EmitsRenamed ρ) :
    (array size item).EmitsRenamed ρ := by
  intro c c' s s' hc hnames
  have hguards := renames_emitSize s s' hρ hc size
  rw [← names_emitSize c s size, ← names_emitSize c' s' size] at hnames
  rw [emit_array, emit_array]
  generalize emitSize size c s = guards, emitSize size c' s' = guards' at hguards hnames ⊢
  have hname : ρ (guards.2.names.mint itemStem).1 = (guards'.2.names.mint itemStem).1 :=
    hnames.mint (by decide) (by simp only [mints, one_self]; omega)
  have hitem : Aligned ρ (guards.2.minted itemStem).names (guards'.2.minted itemStem).names
      item.mints :=
    hnames.after (count_minted_names _ _) (count_minted_names _ _) fun _ => Nat.le_refl _
  have hbody := h _ _ _ _ (hc.minted hname "[]") hitem
  refine hguards.append (hbody.unlessEmpty ?_)
  rw [← hname]
  exact hρ.renameVars_forEach hc.reach hbody _

theorem emitsRenamed_map (size : Limits (Bound Nat)) {k v : Plan} (hk : k.EmitsRenamed ρ)
    (hv : v.EmitsRenamed ρ) : (map size k v).EmitsRenamed ρ := by
  intro c c' s s' hc hnames
  have hguards := renames_emitSize s s' hρ hc size
  rw [← names_emitSize c s size, ← names_emitSize c' s' size] at hnames
  rw [emit_map, emit_map]
  generalize emitSize size c s = guards, emitSize size c' s' = guards' at hguards hnames ⊢
  have hkey : ρ (guards.2.names.mint keyStem).1 = (guards'.2.names.mint keyStem).1 :=
    hnames.mint (by decide) (by simp only [mints, one_self]; omega)
  have hafterKey : Aligned ρ (guards.2.minted keyStem).names (guards'.2.minted keyStem).names
      fun stem => one valueStem stem + k.mints stem + v.mints stem :=
    hnames.after (count_minted_names _ _) (count_minted_names _ _)
      fun _ => by simp only [mints]; omega
  have hck := hc.minted hkey "[key]"
  dsimp only
  rw [← hkey]
  generalize guards.2.minted keyStem = s₁, guards'.2.minted keyStem = s₁' at hafterKey ⊢
  generalize c.minted keyStem "[key]" guards.2.names = ck,
    c'.minted keyStem "[key]" guards'.2.names = ck' at hck ⊢
  have hvalue : ρ (s₁.names.mint valueStem).1 = (s₁'.names.mint valueStem).1 :=
    hafterKey.mint (by decide) (by simp only [one_self]; omega)
  have hafterValue : Aligned ρ (s₁.minted valueStem).names (s₁'.minted valueStem).names
      fun stem => k.mints stem + v.mints stem :=
    hafterKey.after (count_minted_names _ _) (count_minted_names _ _) fun _ => by omega
  have hkeys := hk _ _ _ _ hck (hafterValue.mono fun _ => Nat.le_add_right _ _)
  have hafterKeys : Aligned ρ (k.emit ck (s₁.minted valueStem)).2.names
      (k.emit ck' (s₁'.minted valueStem)).2.names v.mints :=
    hafterValue.after (count_emit k _ _) (count_emit k _ _) fun _ => Nat.le_refl _
  have hvalues := hv _ _ _ _ (hc.minted hvalue "[value]") hafterKeys
  refine hguards.append ((hkeys.append hvalues).unlessEmpty ?_)
  rw [← hvalue, ← map_partName ρ hkeys, ← map_partName ρ hvalues]
  exact hρ.renameVars_forEntries hc.reach (hkeys.append hvalues) _ _

omit hρ in
theorem renames_emitFields {fields : List (Field Plan)}
    (h : ∀ f ∈ fields, f.node.EmitsRenamed ρ) {c c' : Context} (s s' : Scope)
    (hc : c.Renames ρ c') (hnames : Aligned ρ s.names s'.names (mintsFields fields)) :
    Renames ρ (emitFields fields c s).1 (emitFields fields c' s').1 := by
  induction fields generalizing s s' with
  | nil => exact .nil
  | cons f fields ih =>
    have hfirst : Aligned ρ s.names s'.names f.node.mints :=
      hnames.mono fun _ => Nat.le_add_right _ _
    have hrest : Aligned ρ (f.node.emit (c.member f.member f.name) s).2.names
        (f.node.emit (c'.member f.member f.name) s').2.names (mintsFields fields) :=
      hnames.after (count_emit _ _ _) (count_emit _ _ _) fun _ => Nat.le_refl _
    rw [emitFields_cons, emitFields_cons]
    exact (h f List.mem_cons_self _ _ _ _ (hc.member f.member f.name) hfirst).append
      (ih (fun g hg => h g (List.mem_cons_of_mem f hg)) _ _ hrest)

theorem emitsRenamed_inline {fields : List (Field Plan)} {chain : Chain}
    (hchain : ∀ ts ∈ chain.supplied, Free ts) (h : ∀ f ∈ fields, f.node.EmitsRenamed ρ) :
    (inline fields chain).EmitsRenamed ρ := by
  intro c c' s s' hc hnames
  rw [emit_inline, emit_inline]
  exact (renames_emitFields h s s' hc hnames).append (renames_chain _ _ hρ hc hchain free_nil)

theorem emitsRenamed_delegated {chain : Chain} (hchain : ∀ ts ∈ chain.supplied, Free ts) :
    (delegated chain).EmitsRenamed ρ := by
  intro c c' s s' hc _
  rw [emit_delegated, emit_delegated, hc.field]
  exact (Renames.singleton (hρ.renameVars_delegate hc.reach _)).append
    (renames_chain _ _ hρ hc hchain free_nil)

theorem emitsRenamed_wrapper {ty : Ty} (mode : WrapperMode) {inner : Plan} {chain : Chain}
    (hty : Free ty.tokens) (hchain : ∀ ts ∈ chain.supplied, Free ts) (h : inner.EmitsRenamed ρ) :
    (wrapper ty mode inner chain).EmitsRenamed ρ := by
  intro c c' s s' hc hnames
  rw [emit_wrapper, emit_wrapper]
  exact (h _ _ _ _ (hc.wrapped mode) hnames).append (renames_chain _ _ hρ hc hchain hty)

theorem emitsRenamed_interface (indirect : Bool) {chain : Chain}
    (hchain : ∀ ts ∈ chain.supplied, Free ts) : (interface indirect chain).EmitsRenamed ρ := by
  intro c c' s s' hc _
  rw [emit_interface, emit_interface]
  cases indirect with
  | false => exact renames_chain s s' hρ hc hchain free_nil
  | true => exact renames_chain s s' hρ hc.pointee hchain free_nil

/-- Code for a plan whose supplied tokens are clean differs by the renaming. -/
theorem Clean.emitsRenamed {p : Plan} (h : p.Clean) : p.EmitsRenamed ρ := by
  induction p using Plan.induct with
  | scalar check chain => exact emitsRenamed_scalar hρ h
  | optional nullable inner ih => exact emitsRenamed_optional hρ nullable (ih h)
  | array size item ih => exact emitsRenamed_array hρ size (ih h)
  | map size k v ihk ihv =>
    exact emitsRenamed_map hρ size (ihk fun ts ht => h ts (List.mem_append_left _ ht))
      (ihv fun ts ht => h ts (List.mem_append_right _ ht))
  | inline fields chain ih =>
    refine emitsRenamed_inline hρ (fun ts ht => h ts (List.mem_append_right _ ht)) fun f hf => ?_
    exact ih f hf fun ts ht => h ts (List.mem_append_left _ (mem_suppliedFields hf ht))
  | delegated chain => exact emitsRenamed_delegated hρ h
  | wrapper ty mode inner chain ih =>
    refine emitsRenamed_wrapper hρ mode (h _ List.mem_cons_self) (fun ts ht => ?_)
      (ih fun ts ht => ?_)
    · exact h ts (List.mem_cons_of_mem _ (List.mem_append_right _ ht))
    · exact h ts (List.mem_cons_of_mem _ (List.mem_append_left _ ht))
  | interface indirect chain => exact emitsRenamed_interface hρ indirect h
  | skip => exact fun _ _ _ _ _ _ => .nil

end

/-! ## Two runs -/

/-- What was minted before changes only the numbers of the names that the code for a plan binds. -/
theorem emit_renumbers {p : Plan} (hp : p.Clean) {c : Context} {s s' : Scope}
    (hs : s.names.Before (FieldRules.minted c.reach.tokens))
    (hs' : s'.names.Before (FieldRules.minted c.reach.tokens)) :
    ∃ ρ, Names.Renumbering ρ ∧ Renames ρ (p.emit c s).1 (p.emit c s').1 := by
  have hρ := Names.renumbering_move s.names s'.names p.mints
  have hc : c.Renames (Names.move s.names s'.names p.mints) c := ⟨rfl,
    hρ.keepsWords.renameVars_eq_self fun name hname =>
      Names.move_of_before (hs name hname) (hs' name hname) _⟩
  exact ⟨_, hρ, hp.emitsRenamed hρ.keepsWords c c s s' hc (aligned_move _ _ _)⟩

end Plan

/-- Code that binds no names has nothing to renumber. -/
theorem Names.Renumbering.code_eq_of_renames {ρ : String → String} (h : Renumbering ρ)
    {ss us : List Statement} (hss : minted (code ss) = []) (hrenames : Renames ρ ss us) :
    code ss = code us :=
  (h.keepsWords.renameVars_of_minted hss).symm.trans hrenames

/-! ## Symbols -/

/-- The symbols of both sets. -/
def Symbols.union (x y : Symbols) : Symbols :=
  ⟨x.validate || y.validate, x.validationError || y.validationError, x.violation || y.violation⟩

theorem Symbols.contains_union (x y : Symbols) (a : Symbol) :
    (x.union y).contains a = (x.contains a || y.contains a) := by
  cases a <;> rfl

/-- Whatever the scope, the emission adds exactly the symbols of `added` to it. -/
def Adds (emit : Scope → List Statement × Scope) (added : Symbols) : Prop :=
  ∀ s a, (emit s).2.symbols.contains a = (s.symbols.contains a || added.contains a)

theorem symbols_minted (s : Scope) (stem : String) : (s.minted stem).symbols = s.symbols := rfl

theorem contains_none (a : Symbol) : Symbols.none.contains a = false := by
  cases a <;> rfl

theorem contains_require (s : Scope) (a b : Symbol) : (s.require a).symbols.contains b =
    (s.symbols.contains b || (Symbols.none.insert a).contains b) := by
  rw [Scope.require, Symbols.contains_insert, Symbols.contains_insert, contains_none,
    Bool.or_false, Bool.or_comm]

/-- The symbols that code which returns a failure names. -/
def failureSymbols : Symbols := ⟨false, true, true⟩

theorem contains_requireFailure (s : Scope) (a : Symbol) :
    s.requireFailure.symbols.contains a = (s.symbols.contains a || failureSymbols.contains a) := by
  cases a <;>
    simp [Scope.requireFailure, Scope.require, Symbols.insert, Symbols.contains, failureSymbols]

theorem adds_emitLimits {α : Type} (limits : Limits (Bound α)) :
    ∃ added, ∀ test lower upper field,
      Adds (emitLimits limits test lower upper field) added := by
  cases h : limits.isNone with
  | true => exact ⟨.none, fun _ _ _ _ _ a => by simp [emitLimits, h, contains_none]⟩
  | false =>
    exact ⟨failureSymbols, fun _ _ _ _ _ a => by simp [emitLimits, h, contains_requireFailure]⟩

theorem adds_emitSize (size : Limits (Bound Nat)) :
    ∃ added, ∀ c, Adds (emitSize size c) added := by
  obtain ⟨added, h⟩ := adds_emitLimits { size with lower := size.lower.filter (0 < ·.value) }
  exact ⟨added, fun c s a => by rw [emitSize, h]⟩

theorem adds_chain (chain : Chain) :
    ∃ added, ∀ c receiver, Adds (chain.emit c receiver) added := by
  cases h : chain.isEmpty with
  | true => exact ⟨.none, fun _ _ _ a => by simp [Chain.emit, h, contains_none]⟩
  | false =>
    exact ⟨Symbols.none.insert .validationError, fun _ _ _ a => by
      simp [Chain.emit, h, contains_require]⟩

theorem adds_scalarCheck (check : ScalarCheck) : ∃ added, ∀ c, Adds (check.emit c) added := by
  cases check with
  | integer range =>
    obtain ⟨added, h⟩ := adds_emitLimits range
    exact ⟨added, fun c s a => by rw [ScalarCheck.emit_integer, h]⟩
  | float range =>
    obtain ⟨added, h⟩ := adds_emitLimits range
    exact ⟨added, fun c s a => by rw [ScalarCheck.emit, h]⟩
  | string length =>
    obtain ⟨added, h⟩ := adds_emitLimits length
    exact ⟨added, fun c s a => by rw [ScalarCheck.emit_string, h]⟩
  | byte => exact ⟨.none, fun _ s a => by simp [ScalarCheck.emit, contains_none]⟩
  | bool => exact ⟨.none, fun _ s a => by simp [ScalarCheck.emit, contains_none]⟩

namespace Plan

theorem adds_emitFields {fields : List (Field Plan)}
    (h : ∀ f ∈ fields, ∃ added, ∀ c, Adds (f.node.emit c) added) :
    ∃ added, ∀ c, Adds (emitFields fields c) added := by
  induction fields with
  | nil => exact ⟨.none, fun _ s a => by simp [emitFields, contains_none]⟩
  | cons f fields ih =>
    obtain ⟨first, hfirst⟩ := h f List.mem_cons_self
    obtain ⟨rest, hrest⟩ := ih fun g hg => h g (List.mem_cons_of_mem f hg)
    refine ⟨first.union rest, fun c s a => ?_⟩
    rw [emitFields_cons, hrest, hfirst, Symbols.contains_union, Bool.or_assoc]

/-- The symbols that the code for a plan adds depend neither on the context nor on the scope. -/
theorem adds_emit (p : Plan) : ∃ added, ∀ c, Adds (p.emit c) added := by
  induction p using Plan.induct with
  | scalar check chain =>
    obtain ⟨own, hown⟩ := adds_scalarCheck check
    obtain ⟨calls, hcalls⟩ := adds_chain chain
    refine ⟨own.union calls, fun c s a => ?_⟩
    rw [emit_scalar, hcalls, hown, Symbols.contains_union, Bool.or_assoc]
  | optional nullable inner ih =>
    obtain ⟨added, h⟩ := ih
    cases nullable with
    | true =>
      refine ⟨added, fun c s a => ?_⟩
      rw [emit_optional]
      simp only [if_true]
      rw [h, symbols_minted]
    | false =>
      refine ⟨added.union failureSymbols, fun c s a => ?_⟩
      rw [emit_optional]
      simp only [Bool.false_eq_true, if_false]
      rw [contains_requireFailure, h, symbols_minted, Symbols.contains_union, Bool.or_assoc]
  | array size item ih =>
    obtain ⟨own, hown⟩ := adds_emitSize size
    obtain ⟨added, h⟩ := ih
    refine ⟨own.union added, fun c s a => ?_⟩
    rw [emit_array, h, symbols_minted, hown, Symbols.contains_union, Bool.or_assoc]
  | map size k v ihk ihv =>
    obtain ⟨own, hown⟩ := adds_emitSize size
    obtain ⟨keys, hk⟩ := ihk
    obtain ⟨values, hv⟩ := ihv
    refine ⟨(own.union keys).union values, fun c s a => ?_⟩
    rw [emit_map, hv, hk, symbols_minted, symbols_minted, hown, Symbols.contains_union,
      Symbols.contains_union, Bool.or_assoc, Bool.or_assoc, Bool.or_assoc]
  | inline fields chain ih =>
    obtain ⟨own, hown⟩ := adds_emitFields ih
    obtain ⟨calls, hcalls⟩ := adds_chain chain
    refine ⟨own.union calls, fun c s a => ?_⟩
    rw [emit_inline, hcalls, hown, Symbols.contains_union, Bool.or_assoc]
  | delegated chain =>
    obtain ⟨calls, hcalls⟩ := adds_chain chain
    refine ⟨(Symbols.none.insert .validate).union calls, fun c s a => ?_⟩
    rw [emit_delegated, hcalls, contains_require, Symbols.contains_union, Bool.or_assoc]
  | wrapper ty mode inner chain ih =>
    obtain ⟨own, hown⟩ := ih
    obtain ⟨calls, hcalls⟩ := adds_chain chain
    refine ⟨own.union calls, fun c s a => ?_⟩
    rw [emit_wrapper, hcalls, hown, Symbols.contains_union, Bool.or_assoc]
  | interface indirect chain =>
    obtain ⟨calls, hcalls⟩ := adds_chain chain
    exact ⟨calls, fun c s a => hcalls _ _ s a⟩
  | skip => exact ⟨.none, fun c s a => by simp [emit, contains_none]⟩

end Plan

end FieldRules
