import FieldRules.Proofs.Config.Trees

/-!
# What freezing gives

The inversion of `Draft.freeze`, one lemma for each constructor: the plan of a tree that freezes has
the node's own slots read and the plans of its parts. The limits that are read for an integer are
numbers of 128 bits, so every plan of a tree is `Plan.Bounded` (`Draft.bounded_of_freeze`).
-/

namespace FieldRules

/-! ## Computations that may fail -/

theorem bind_eq_ok {ε α β : Type} {x : Except ε α} {f : α → Except ε β} {b : β} :
    x >>= f = .ok b ↔ ∃ a, x = .ok a ∧ f a = .ok b := by
  cases x with
  | error e => exact ⟨fun h => (nomatch h), fun ⟨_, h, _⟩ => (nomatch h)⟩
  | ok a => exact ⟨fun h => ⟨a, rfl, h⟩, fun ⟨_, ha, h⟩ => by cases ha; exact h⟩

theorem map_eq_ok {ε α β : Type} {x : Except ε α} {f : α → β} {b : β} :
    x.map f = .ok b ↔ ∃ a, x = .ok a ∧ f a = b := by
  cases x with
  | error e => exact ⟨fun h => (nomatch h), fun ⟨_, h, _⟩ => (nomatch h)⟩
  | ok a => exact ⟨fun h => ⟨a, rfl, Except.ok.inj h⟩, fun ⟨_, ha, h⟩ => by cases ha; rw [← h]; rfl⟩

theorem mapError_eq_ok {ε ε' α : Type} {x : Except ε α} {f : ε → ε'} {a : α} :
    x.mapError f = .ok a ↔ x = .ok a := by
  cases x with
  | error e => exact ⟨fun h => (nomatch h), fun h => (nomatch h)⟩
  | ok b => exact ⟨fun h => by cases h; rfl, fun h => by cases h; rfl⟩

/-! ## Limits -/

/-- The number of a limit that is set has the property. -/
def Limits.All {α : Type} (P : α → Prop) (l : Limits (Bound α)) : Prop :=
  (∀ b, l.lower = some b → P b.value) ∧ ∀ b, l.upper = some b → P b.value

theorem Limits.All.imp {α : Type} {P Q : α → Prop} {l : Limits (Bound α)} (h : l.All P)
    (hPQ : ∀ a, P a → Q a) : l.All Q :=
  ⟨fun b hb => hPQ _ (h.1 b hb), fun b hb => hPQ _ (h.2 b hb)⟩

theorem Bound.ofSlot_eq_some {α : Type} {read : Key → String → Except ConfigError (Bound α)}
    {k : Key} {slot : Option String} {b : Bound α} (h : ofSlot read k slot = .ok (some b)) :
    ∃ text, slot = some text ∧ read k text = .ok b := by
  cases slot with
  | none => cases h
  | some text =>
    obtain ⟨b', hb, h⟩ := map_eq_ok.mp h
    cases h
    exact ⟨text, rfl, hb⟩

/-- Limits that are read are the bounds of their slots. -/
theorem Limits.read_eq_ok {α : Type} {read : Key → String → Except ConfigError (Bound α)}
    {below : α → α → Bool} {lowerKey upperKey : Key} {slots : Limits String}
    {l : Limits (Bound α)} (h : Limits.read read below lowerKey upperKey slots = .ok l) :
    Bound.ofSlot read lowerKey slots.lower = .ok l.lower ∧
      Bound.ofSlot read upperKey slots.upper = .ok l.upper := by
  obtain ⟨lower, hl, h⟩ := bind_eq_ok.mp h
  obtain ⟨upper, hu, h⟩ := bind_eq_ok.mp h
  have hlim : l = ⟨lower, upper⟩ := by
    split at h
    · split at h
      · cases h
      · cases h; rfl
    · cases h; rfl
  subst hlim
  exact ⟨hl, hu⟩

theorem Limits.all_of_read {α : Type} {P : α → Prop}
    {read : Key → String → Except ConfigError (Bound α)} {below : α → α → Bool}
    {lowerKey upperKey : Key} {slots : Limits String} {l : Limits (Bound α)}
    (hP : ∀ k text b, read k text = .ok b → P b.value)
    (h : Limits.read read below lowerKey upperKey slots = .ok l) : l.All P := by
  obtain ⟨hl, hu⟩ := Limits.read_eq_ok h
  constructor
  · intro b hb
    rw [hb] at hl
    obtain ⟨text, -, hr⟩ := Bound.ofSlot_eq_some hl
    exact hP _ _ _ hr
  · intro b hb
    rw [hb] at hu
    obtain ⟨text, -, hr⟩ := Bound.ofSlot_eq_some hu
    exact hP _ _ _ hr

theorem Bound.le_of_wide? {text : String} {n : Int} (h : wide? text = some n) :
    leastInteger ≤ n ∧ n ≤ greatestInteger := by
  obtain ⟨-, hn⟩ := Option.filter_eq_some_iff.mp h
  simpa using hn

theorem Bound.le_of_wideOfFloat? {text : String} {n : Int} (h : wideOfFloat? text = some n) :
    leastInteger ≤ n ∧ n ≤ greatestInteger := by
  obtain ⟨-, hn⟩ := Option.filter_eq_some_iff.mp h
  have hn : n.natAbs < Nat.pow 2 127 := by simpa only [decide_eq_true_eq] using hn
  unfold leastInteger greatestInteger
  omega

/-- The bound of an integer is a number of 128 bits. -/
theorem Bound.le_of_integer {k : Key} {text : String} {b : Bound Int} (h : integer k text = .ok b) :
    leastInteger ≤ b.value ∧ b.value ≤ greatestInteger := by
  unfold integer at h
  split at h
  next n hn =>
    cases h
    rcases Option.or_eq_some_iff.mp hn with hn | ⟨-, hn⟩
    · exact le_of_wide? hn
    · exact le_of_wideOfFloat? hn
  next => cases h

/-! ## Bounded plans -/

/-- The limits of an integer are numbers of 128 bits. -/
def ScalarCheck.Bounded : ScalarCheck → Prop
  | integer range => range.All fun n => Bound.leastInteger ≤ n ∧ n ≤ Bound.greatestInteger
  | _ => True

theorem ScalarCheck.bounded_of_freezeScalar {slots : Limits String} {kind : ScalarKind}
    {check : ScalarCheck} (h : Draft.freezeScalar slots kind = .ok check) : check.Bounded := by
  cases kind with
  | integer =>
    obtain ⟨range, hr, rfl⟩ := map_eq_ok.mp h
    unfold Bounded
    exact Limits.all_of_read (fun _ _ _ hb => Bound.le_of_integer hb) hr
  | float =>
    obtain ⟨range, -, rfl⟩ := map_eq_ok.mp h
    trivial
  | string =>
    obtain ⟨length, -, rfl⟩ := map_eq_ok.mp h
    trivial
  | byte => cases h; trivial
  | bool => cases h; trivial

/-- All limits of integers in the plan are numbers of 128 bits. -/
inductive Plan.Bounded : Plan → Prop
  | scalar {check : ScalarCheck} (chain : Chain) (h : check.Bounded) :
    Bounded (.scalar check chain)
  | optional (nullable : Bool) {inner : Plan} (h : Bounded inner) :
    Bounded (.optional nullable inner)
  | array (size : Limits (Bound Nat)) {item : Plan} (h : Bounded item) : Bounded (.array size item)
  | map (size : Limits (Bound Nat)) {key value : Plan} (hk : Bounded key) (hv : Bounded value) :
    Bounded (.map size key value)
  | inline {fields : List (Field Plan)} (chain : Chain) (h : ∀ f ∈ fields, Bounded f.node) :
    Bounded (.inline fields chain)
  | delegated (chain : Chain) : Bounded (.delegated chain)
  | wrapper (ty : Ty) (mode : WrapperMode) {inner : Plan} (chain : Chain) (h : Bounded inner) :
    Bounded (.wrapper ty mode inner chain)
  | interface (indirect : Bool) (chain : Chain) : Bounded (.interface indirect chain)
  | skip : Bounded .skip

namespace Draft

/-! ## Inversion -/

theorem freeze_scalar {kind : ScalarKind} {limits : Limits String} {func : Option String}
    {p : Plan} (h : (scalar kind limits func).freeze = .ok p) :
    ∃ check chain, freezeScalar limits kind = .ok check ∧ Chain.ofSlot func = .ok chain ∧
      p = .scalar check chain := by
  obtain ⟨check, hk, h⟩ := bind_eq_ok.mp h
  obtain ⟨chain, hc, h⟩ := bind_eq_ok.mp h
  exact ⟨check, chain, hk, hc, (Except.ok.inj h).symm⟩

theorem freeze_optional {nullable notNull : Bool} {inner : Draft} {p : Plan}
    (h : (optional nullable notNull inner).freeze = .ok p) :
    ∃ q, inner.freeze = .ok q ∧ p = .optional nullable q := by
  unfold freeze at h
  split at h
  · cases h
  · obtain ⟨q, hq, h⟩ := bind_eq_ok.mp h
    exact ⟨q, hq, (Except.ok.inj h).symm⟩

theorem freeze_array {size : Limits String} {item : Draft} {p : Plan}
    (h : (array size item).freeze = .ok p) :
    ∃ l q, freezeCount .minItems .maxItems size = .ok l ∧ item.freeze = .ok q ∧
      p = .array l q := by
  obtain ⟨l, hl, h⟩ := bind_eq_ok.mp h
  obtain ⟨q, hq, h⟩ := bind_eq_ok.mp h
  exact ⟨l, q, hl, mapError_eq_ok.mp hq, (Except.ok.inj h).symm⟩

theorem freeze_map {size : Limits String} {k v : Draft} {p : Plan}
    (h : (map size k v).freeze = .ok p) :
    ∃ l q r, freezeCount .minItems .maxItems size = .ok l ∧ k.freeze = .ok q ∧ v.freeze = .ok r ∧
      p = .map l q r := by
  obtain ⟨l, hl, h⟩ := bind_eq_ok.mp h
  obtain ⟨q, hq, h⟩ := bind_eq_ok.mp h
  obtain ⟨r, hr, h⟩ := bind_eq_ok.mp h
  exact ⟨l, q, r, hl, mapError_eq_ok.mp hq, mapError_eq_ok.mp hr, (Except.ok.inj h).symm⟩

theorem freeze_inline {fields : List (Field Draft)} {func : Option String} {p : Plan}
    (h : (inline fields func).freeze = .ok p) :
    ∃ plans chain, freezeFields fields = .ok plans ∧ Chain.ofSlot func = .ok chain ∧
      p = .inline plans chain := by
  obtain ⟨plans, hp, h⟩ := bind_eq_ok.mp h
  obtain ⟨chain, hc, h⟩ := bind_eq_ok.mp h
  exact ⟨plans, chain, hp, hc, (Except.ok.inj h).symm⟩

theorem freeze_delegated {func : Option String} {p : Plan}
    (h : (delegated func).freeze = .ok p) :
    ∃ chain, Chain.ofSlot func = .ok chain ∧ p = .delegated chain := by
  obtain ⟨chain, hc, h⟩ := bind_eq_ok.mp h
  exact ⟨chain, hc, (Except.ok.inj h).symm⟩

theorem freeze_wrapper {ty : Ty} {mode : WrapperMode} {inner : Draft} {func : Option String}
    {p : Plan} (h : (wrapper ty mode inner func).freeze = .ok p) :
    ∃ q chain, inner.freeze = .ok q ∧ Chain.ofSlot func = .ok chain ∧
      p = .wrapper ty mode q chain := by
  obtain ⟨q, hq, h⟩ := bind_eq_ok.mp h
  obtain ⟨chain, hc, h⟩ := bind_eq_ok.mp h
  exact ⟨q, chain, hq, hc, (Except.ok.inj h).symm⟩

theorem freeze_interface {indirect : Bool} {func : Option String} {p : Plan}
    (h : (interface indirect func).freeze = .ok p) :
    ∃ chain, Chain.ofSlot func = .ok chain ∧ p = .interface indirect chain := by
  obtain ⟨chain, hc, h⟩ := bind_eq_ok.mp h
  exact ⟨chain, hc, (Except.ok.inj h).symm⟩

theorem freezeFields_cons {f : Field Draft} {fields : List (Field Draft)}
    {plans : List (Field Plan)} (h : freezeFields (f :: fields) = .ok plans) :
    ∃ q rest, f.node.freeze = .ok q ∧ freezeFields fields = .ok rest ∧
      plans = ⟨f.member, f.name, q⟩ :: rest := by
  obtain ⟨member, name, node⟩ := f
  obtain ⟨q, hq, h⟩ := bind_eq_ok.mp h
  obtain ⟨rest, hr, h⟩ := bind_eq_ok.mp h
  exact ⟨q, rest, mapError_eq_ok.mp hq, hr, (Except.ok.inj h).symm⟩

/-- Every field of a frozen struct is the plan of a field. -/
theorem exists_of_freezeFields {fields : List (Field Draft)} {plans : List (Field Plan)}
    (h : freezeFields fields = .ok plans) :
    ∀ g ∈ plans, ∃ f ∈ fields, f.node.freeze = .ok g.node := by
  induction fields generalizing plans with
  | nil =>
    cases h
    intro g hg
    cases hg
  | cons f fields ih =>
    obtain ⟨q, rest, hq, hr, rfl⟩ := freezeFields_cons h
    intro g hg
    cases hg with
    | head => exact ⟨f, List.mem_cons_self, hq⟩
    | tail _ hg =>
      obtain ⟨f', hf', hg⟩ := ih hr g hg
      exact ⟨f', List.mem_cons_of_mem f hf', hg⟩

/-- The plans of a struct's fields are the plans of their trees. -/
theorem exists_getElem?_of_freezeFields {fields : List (Field Draft)} {plans : List (Field Plan)}
    (h : freezeFields fields = .ok plans) {n : Nat} {f : Field Draft} (hf : fields[n]? = some f) :
    ∃ q, f.node.freeze = .ok q ∧ plans[n]? = some ⟨f.member, f.name, q⟩ := by
  induction fields generalizing plans n with
  | nil => cases hf
  | cons g fields ih =>
    obtain ⟨q, rest, hq, hrest, rfl⟩ := freezeFields_cons h
    cases n with
    | zero => cases hf; exact ⟨q, hq, rfl⟩
    | succ n => exact ih hrest hf

/-- The plan of a tree is bounded. -/
theorem bounded_of_freeze {d : Draft} {p : Plan} (h : d.freeze = .ok p) : p.Bounded := by
  induction d using Draft.induct generalizing p with
  | scalar kind limits func =>
    obtain ⟨check, chain, hk, -, rfl⟩ := freeze_scalar h
    exact .scalar chain (ScalarCheck.bounded_of_freezeScalar hk)
  | optional nullable notNull inner ih =>
    obtain ⟨q, hq, rfl⟩ := freeze_optional h
    exact .optional nullable (ih hq)
  | array size item ih =>
    obtain ⟨l, q, -, hq, rfl⟩ := freeze_array h
    exact .array l (ih hq)
  | map size k v ihk ihv =>
    obtain ⟨l, q, r, -, hq, hr, rfl⟩ := freeze_map h
    exact .map l (ihk hq) (ihv hr)
  | inline fields func ih =>
    obtain ⟨plans, chain, hp, -, rfl⟩ := freeze_inline h
    refine .inline chain fun g hg => ?_
    obtain ⟨f, hf, hg⟩ := exists_of_freezeFields hp g hg
    exact ih f hf hg
  | delegated func =>
    obtain ⟨chain, -, rfl⟩ := freeze_delegated h
    exact .delegated chain
  | wrapper ty mode inner func ih =>
    obtain ⟨q, chain, hq, -, rfl⟩ := freeze_wrapper h
    exact .wrapper ty mode chain (ih hq)
  | interface indirect func =>
    obtain ⟨chain, -, rfl⟩ := freeze_interface h
    exact .interface indirect chain
  | skip =>
    cases h
    exact .skip

end Draft

end FieldRules
