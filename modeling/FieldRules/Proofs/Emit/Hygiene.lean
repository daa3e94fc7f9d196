import FieldRules.Proofs.Config.Trees
import FieldRules.Proofs.Emit.Bindings
import FieldRules.Proofs.Emit.Shape

/-!
# Hygiene of emitted code

The names that emitted code binds are bound once, over all the code that is emitted with one scope,
and occur in the bodies that they are bound for and nowhere else. The induction on the plan needs
more than `Hygienic`: every statement that is emitted for a context uses the names by which the
context is reached (`Tidy`), so that a name is used whenever there is code below it.
-/

namespace FieldRules

/-! ## What authors supply -/

/-- The tokens that the author of a chain supplies. -/
def Chain.supplied (chain : Chain) : List (List Token) := chain.map Validator.supplied

namespace Plan

mutual

/-- The tokens that are supplied for a plan: its validators and the types of its wrappers. -/
def supplied : Plan → List (List Token)
  | .scalar _ chain => chain.supplied
  | .optional _ inner => inner.supplied
  | .array _ item => item.supplied
  | .map _ k v => k.supplied ++ v.supplied
  | .inline fields chain => suppliedFields fields ++ chain.supplied
  | .delegated chain => chain.supplied
  | .wrapper ty _ inner chain => ty.tokens :: (inner.supplied ++ chain.supplied)
  | .interface _ chain => chain.supplied
  | .skip => []

/-- The tokens that are supplied for the fields of a struct. -/
def suppliedFields : List (Field Plan) → List (List Token)
  | [] => []
  | ⟨_, _, plan⟩ :: rest => plan.supplied ++ suppliedFields rest

end

mutual

def nodes : Plan → List Plan
  | .scalar check chain => [.scalar check chain]
  | .optional nullable inner => .optional nullable inner :: inner.nodes
  | .array size item => .array size item :: item.nodes
  | .map size k v => .map size k v :: (k.nodes ++ v.nodes)
  | .inline fields chain => .inline fields chain :: nodesFields fields
  | .delegated chain => [.delegated chain]
  | .wrapper ty mode inner chain => .wrapper ty mode inner chain :: inner.nodes
  | .interface indirect chain => [.interface indirect chain]
  | .skip => [.skip]

/-- The nodes of the fields of a struct. -/
def nodesFields : List (Field Plan) → List Plan
  | [] => []
  | ⟨_, _, plan⟩ :: rest => plan.nodes ++ nodesFields rest

end

/-- No supplied token is a name that is kept for generated code. -/
def Clean (p : Plan) : Prop := ∀ ts ∈ p.supplied, Free ts

theorem mem_suppliedFields {ts : List Token} {f : Field Plan} {fields : List (Field Plan)}
    (hf : f ∈ fields) (h : ts ∈ f.node.supplied) : ts ∈ suppliedFields fields := by
  induction fields with
  | nil => cases hf
  | cons g fields ih =>
    rw [suppliedFields, List.mem_append]
    rcases List.mem_cons.mp hf with rfl | hf
    · exact .inl h
    · exact .inr (ih hf)

theorem mem_nodesFields {q : Plan} {f : Field Plan} {fields : List (Field Plan)}
    (hf : f ∈ fields) (h : q ∈ f.node.nodes) : q ∈ nodesFields fields := by
  induction fields with
  | nil => cases hf
  | cons g fields ih =>
    rw [nodesFields, List.mem_append]
    rcases List.mem_cons.mp hf with rfl | hf
    · exact .inl h
    · exact .inr (ih hf)

end Plan

/-! ## Tidy code -/

/-- Hygienic code all of whose statements use the names of `outer`. -/
structure Tidy (outer : List String) (n n' : Names) (ss : List Statement) : Prop extends
    Hygienic outer n n' ss where
  /-- Every statement uses the outer names. -/
  reaches : ∀ t ∈ ss, ∀ x ∈ outer, x ∈ minted t.tokens

namespace Tidy

variable {outer : List String} {n n₁ n₂ : Names} {ss us : List Statement}

theorem nil (hle : Names.Le n n₁) : Tidy outer n n₁ [] where
  toHygienic := .nil hle
  reaches := fun _ ht => (nomatch ht)

theorem append (h : Tidy outer n n₁ ss) (h' : Tidy outer n₁ n₂ us) (ho : n.Before outer) :
    Tidy outer n n₂ (ss ++ us) where
  toHygienic := h.toHygienic.append h'.toHygienic ho
  reaches := by
    intro t ht
    rcases List.mem_append.mp ht with ht | ht
    · exact h.reaches t ht
    · exact h'.reaches t ht

/-- Names may have been minted before the code's own. -/
theorem mono {n₀ : Names} (h : Tidy outer n n₁ ss) (hle : Names.Le n₀ n) : Tidy outer n₀ n₁ ss where
  toHygienic := h.toHygienic.mono hle
  reaches := h.reaches

/-- Statements without loops and patterns that use just the outer names. -/
theorem leaf (harm : ∀ t ∈ ss, ∀ u ∈ t.parts, u.arm? = none)
    (hm : ∀ t ∈ ss, minted t.tokens = outer) : Tidy outer n n ss where
  toHygienic := by
    refine .leaf (fun u hu => ?_) fun x hx => ?_
    · obtain ⟨t, ht, hu⟩ := mem_parts.mp hu
      exact harm t ht u hu
    · obtain ⟨t, ht, hx⟩ := mem_minted_code.mp hx
      rwa [hm t ht] at hx
  reaches := by
    intro t ht x hx
    rwa [hm t ht]

/-- A loop or pattern that binds `xs` around code, or nothing without code. -/
theorem unlessEmpty {wrap : List Statement → Statement} {xs : List String}
    (harm : (wrap ss).arm? = some ss) (hbinds : (wrap ss).binds = xs.map (⟨·, ss⟩))
    (hcount : ∀ x, (minted (wrap ss).tokens).count x =
      xs.count x + outer.count x + (minted (code ss)).count x)
    (hxs : xs.Nodup) (hbetween : ∀ x ∈ xs, Names.Between n n₁ x) (hle : Names.Le n n₁)
    (ho : n.Before outer) (hused : ∀ x ∈ xs, x ∈ minted (code ss))
    (h : Hygienic xs n₁ n₂ ss) : Tidy outer n n₂ (unlessEmpty wrap ss) := by
  unfold FieldRules.unlessEmpty
  split
  · exact .nil (hle.trans h.le)
  next hempty =>
    have hne : ss ≠ [] := fun h => hempty (by rw [h]; rfl)
    refine ⟨.wrap harm hbinds hcount hxs hbetween hle ho hused hne h, ?_⟩
    intro t ht x hx
    cases List.mem_singleton.mp ht
    refine List.count_pos_iff.mp ?_
    have hpos := List.count_pos_iff.mpr hx
    rw [hcount]
    omega

/-- Code that uses its outer names uses them whenever it is there. -/
theorem mem_minted (h : Tidy outer n n₁ ss) (hne : ss ≠ []) {x : String} (hx : x ∈ outer) :
    x ∈ minted (code ss) := by
  cases ss with
  | nil => exact absurd rfl hne
  | cons t ss =>
    exact mem_minted_code.mpr ⟨t, List.mem_cons_self, h.reaches t List.mem_cons_self x hx⟩

end Tidy

/-! ## Guards and calls -/

section Leaves

variable (c : Context) (s : Scope)

theorem names_emitLimits {α : Type} (limits : Limits (Bound α)) (test : Side → α → Test)
    (lower upper : Bound α → Violation) (field : String) :
    (emitLimits limits test lower upper field s).2.names = s.names := by
  unfold emitLimits
  simp only
  split <;> rfl

theorem names_emitSize (size : Limits (Bound Nat)) : (emitSize size c s).2.names = s.names :=
  names_emitLimits ..

theorem names_chain (chain : Chain) (receiver : Receiver) :
    (chain.emit c receiver s).2.names = s.names := by
  unfold Chain.emit
  simp only
  split <;> rfl

theorem names_scalarCheck (check : ScalarCheck) : (check.emit c s).2.names = s.names := by
  cases check with
  | integer range => simp only [ScalarCheck.emit_integer, names_emitLimits]
  | float range => exact names_emitLimits ..
  | string length => simp only [ScalarCheck.emit_string, names_emitLimits]
  | byte => rfl
  | bool => rfl

section Guards

variable {α : Type} (limits : Limits (Bound α)) (test : Side → α → Test)
  (lower upper : Bound α → Violation) (field : String)

theorem exists_of_mem_emitLimits {t : Statement}
    (h : t ∈ (emitLimits limits test lower upper field s).1) :
    ∃ side a failure, t = .guard (test side a) failure := by
  unfold emitLimits at h
  rcases List.mem_append.mp h with h | h
  · obtain ⟨b, -, rfl⟩ := List.mem_map.mp h
    exact ⟨_, _, _, rfl⟩
  · obtain ⟨b, -, rfl⟩ := List.mem_map.mp h
    exact ⟨_, _, _, rfl⟩

theorem arm?_of_mem_parts_emitLimits {u : Statement}
    (h : u ∈ parts (emitLimits limits test lower upper field s).1) : u.arm? = none := by
  obtain ⟨t, ht, hu⟩ := mem_parts.mp h
  obtain ⟨side, a, failure, rfl⟩ := exists_of_mem_emitLimits s limits test lower upper field ht
  cases List.mem_singleton.mp hu
  rfl

variable {outer : List String} {n : Names}

/-- Guards whose tests look at one expression. -/
theorem tidy_emitLimits (h : ∀ side a, minted (test side a).reach = outer) :
    Tidy outer n n (emitLimits limits test lower upper field s).1 := by
  refine .leaf (fun t ht u hu => ?_) fun t ht => ?_
  · exact arm?_of_mem_parts_emitLimits s limits test lower upper field (mem_parts.mpr ⟨t, ht, hu⟩)
  · obtain ⟨side, a, failure, rfl⟩ := exists_of_mem_emitLimits s limits test lower upper field ht
    rw [Statement.minted_guard, h]

/-- Guards that look at no expression, in a block that prepares what they look at. -/
theorem tidy_block {wrap : List Statement → Statement}
    (hparts : ∀ body, (wrap body).parts = wrap body :: parts body)
    (harm : ∀ body, (wrap body).arm? = none)
    (hm : ∀ body, minted (wrap body).tokens = outer ++ minted (code body))
    (h : ∀ side a, minted (test side a).reach = []) :
    Tidy outer n n (unlessEmpty wrap (emitLimits limits test lower upper field s).1) := by
  have hnone : minted (code (emitLimits limits test lower upper field s).1) = [] := by
    refine List.eq_nil_iff_forall_not_mem.mpr fun x hx => ?_
    obtain ⟨t, ht, hx⟩ := mem_minted_code.mp hx
    obtain ⟨side, a, failure, rfl⟩ := exists_of_mem_emitLimits s limits test lower upper field ht
    rw [Statement.minted_guard, h] at hx
    cases hx
  unfold unlessEmpty
  split
  · exact .nil (Names.Le.refl n)
  · refine .leaf (fun t ht u hu => ?_) fun t ht => ?_
    · cases List.mem_singleton.mp ht
      rw [hparts, List.mem_cons] at hu
      rcases hu with rfl | hu
      · exact harm _
      · exact arm?_of_mem_parts_emitLimits s limits test lower upper field hu
    · cases List.mem_singleton.mp ht
      rw [hm, hnone, List.append_nil]

end Guards

theorem tidy_emitSize (size : Limits (Bound Nat)) {n : Names} :
    Tidy (minted c.reach.tokens) n n (emitSize size c s).1 :=
  tidy_emitLimits s _ _ _ _ _ fun _ _ => rfl

theorem tidy_scalarCheck (check : ScalarCheck) {n : Names} :
    Tidy (minted c.reach.tokens) n n (check.emit c s).1 := by
  cases check with
  | integer range =>
    rw [ScalarCheck.emit_integer]
    exact tidy_block s range _ _ _ _ (fun _ => rfl) (fun _ => rfl)
      (Statement.minted_widen c.reach) fun _ _ => rfl
  | float range => exact tidy_emitLimits s _ _ _ _ _ fun _ _ => rfl
  | string length =>
    rw [ScalarCheck.emit_string]
    exact tidy_block s length _ _ _ _ (fun _ => rfl) (fun _ => rfl)
      (Statement.minted_measure c.reach) fun _ _ => rfl
  | byte => exact .nil (Names.Le.refl n)
  | bool => exact .nil (Names.Le.refl n)

theorem tidy_chain {chain : Chain} {receiver : Receiver} {n : Names}
    (hc : ∀ ts ∈ chain.supplied, Free ts) (hr : Free receiver.supplied) :
    Tidy (minted c.reach.tokens) n n (chain.emit c receiver s).1 := by
  refine .leaf (fun t ht u hu => ?_) fun t ht => ?_
  · obtain ⟨v, -, rfl⟩ := List.mem_map.mp ht
    cases List.mem_singleton.mp hu
    rfl
  · obtain ⟨v, hv, rfl⟩ := List.mem_map.mp ht
    rw [Statement.minted_call, Validator.minted_call (hc _ (List.mem_map_of_mem hv)) hr]

end Leaves

/-! ## Plans -/

theorem free_nil : Free [] := fun _ h => (nomatch h)

theorem Context.minted_reach (c : Context) {stem : String} (h : stem ∈ Names.stems)
    (suffix : String) (names : Names) :
    FieldRules.minted (c.minted stem suffix names).reach.tokens = [(names.mint stem).1] :=
  Reach.minted_binding (isMinted_nth h _)

theorem isMinted_mint {stem : String} (h : stem ∈ Names.stems) (names : Names) :
    isMinted (names.mint stem).1 = true :=
  isMinted_nth h _

theorem Scope.le_minted (s : Scope) (stem : String) : s.names.Le (s.minted stem).names :=
  Names.le_mint stem s.names

/-- Code for the plan is tidy in every context that is reached by names minted before. -/
def Plan.EmitsTidy (p : Plan) : Prop :=
  ∀ (c : Context) (s : Scope), s.names.Before (minted c.reach.tokens) →
    Tidy (minted c.reach.tokens) s.names (p.emit c s).2.names (p.emit c s).1

namespace Plan

/-- Code for a value that is bound to a name minted before. -/
theorem EmitsTidy.minted {p : Plan} (h : p.EmitsTidy) (c : Context) {stem : String}
    (hstem : stem ∈ Names.stems) (suffix : String) (names : Names) {s : Scope}
    (hs : (names.mint stem).2.Le s.names) :
    Tidy [(names.mint stem).1] s.names (p.emit (c.minted stem suffix names) s).2.names
      (p.emit (c.minted stem suffix names) s).1 := by
  rw [← Context.minted_reach c hstem suffix names]
  refine h (c.minted stem suffix names) s ?_
  rw [Context.minted_reach c hstem suffix names]
  intro x hx
  cases List.mem_singleton.mp hx
  exact (Names.between_mint hstem names).mono (Names.nil_le names) hs

/-- A loop or pattern with one name. -/
theorem tidy_wrap {stem : String} (hstem : stem ∈ Names.stems) {c : Context} {n n' : Names}
    {body : List Statement} {wrap : List Statement → Statement}
    (harm : (wrap body).arm? = some body)
    (hbinds : (wrap body).binds = [⟨(n.mint stem).1, body⟩])
    (hperm : (FieldRules.minted (wrap body).tokens).Perm
      ((n.mint stem).1 :: (FieldRules.minted c.reach.tokens ++ FieldRules.minted (code body))))
    (ho : n.Before (FieldRules.minted c.reach.tokens))
    (h : Tidy [(n.mint stem).1] (n.mint stem).2 n' body) :
    Tidy (FieldRules.minted c.reach.tokens) n n' (unlessEmpty wrap body) := by
  cases body with
  | nil => exact .nil ((Names.le_mint stem n).trans h.le)
  | cons t ss =>
    have hone : [(n.mint stem).1].Nodup := List.nodup_cons.mpr ⟨List.not_mem_nil, List.nodup_nil⟩
    have hnames : (wrap (t :: ss)).binds = [(n.mint stem).1].map (⟨·, t :: ss⟩) := hbinds
    refine .unlessEmpty harm hnames (fun x => ?_) hone ?_ (Names.le_mint stem n) ho ?_ h.toHygienic
    · rw [hperm.count_eq, List.count_cons, List.count_append, List.count_singleton]
      omega
    · intro x hx
      cases List.mem_singleton.mp hx
      exact Names.between_mint hstem n
    · exact fun x hx => h.mem_minted (List.cons_ne_nil t ss) hx

theorem emitsTidy_scalar {check : ScalarCheck} {chain : Chain}
    (hc : (scalar check chain).Clean) : (scalar check chain).EmitsTidy := by
  intro c s ho
  rw [emit_scalar, names_chain, names_scalarCheck]
  exact (tidy_scalarCheck c s check).append (tidy_chain c _ hc free_nil) ho

theorem emitsTidy_optional (nullable : Bool) {inner : Plan} (h : inner.EmitsTidy) :
    (optional nullable inner).EmitsTidy := by
  intro c s ho
  have hstem : presentStem ∈ Names.stems := by decide
  have hname := isMinted_mint hstem s.names
  have hbody := h.minted c hstem "" s.names (s := s.minted presentStem) (Names.Le.refl _)
  rw [emit_optional]
  generalize inner.emit (c.minted presentStem "" s.names) (s.minted presentStem) = out at hbody
  obtain ⟨body, s'⟩ := out
  cases nullable with
  | true =>
    refine tidy_wrap hstem rfl rfl ?_ ho hbody
    rw [Statement.minted_ifPresent hname]
  | false =>
    cases body with
    | nil =>
      refine Tidy.mono (n := s'.names) ?_ ((s.le_minted presentStem).trans hbody.le)
      refine .leaf (fun t ht u hu => ?_) fun t ht => ?_
      · cases List.mem_singleton.mp ht
        cases List.mem_singleton.mp hu
        rfl
      · cases List.mem_singleton.mp ht
        exact Statement.minted_guard _ _
    | cons t ss =>
      let wrap := fun body => Statement.matchPresent (s.names.mint presentStem).1 c.reach body
        ⟨c.field, .missing⟩
      show Tidy _ _ _ (FieldRules.unlessEmpty wrap (t :: ss))
      refine tidy_wrap hstem rfl rfl ?_ ho hbody
      rw [Statement.minted_matchPresent hname]
      exact List.perm_middle

theorem emitsTidy_array (size : Limits (Bound Nat)) {item : Plan} (h : item.EmitsTidy) :
    (array size item).EmitsTidy := by
  intro c s ho
  have hstem : itemStem ∈ Names.stems := by decide
  have hguards := tidy_emitSize c s size (n := s.names)
  have hnames := names_emitSize c s size
  rw [emit_array]
  generalize emitSize size c s = out at hguards hnames
  obtain ⟨guards, s₁⟩ := out
  simp only at hguards hnames
  rw [← hnames] at hguards ho ⊢
  have hbody := h.minted c hstem "[]" s₁.names (s := s₁.minted itemStem) (Names.Le.refl _)
  refine hguards.append (tidy_wrap hstem rfl rfl ?_ ho hbody) ho
  rw [Statement.minted_forEach (isMinted_mint hstem _)]

/-- The name of a part of an entry is used wherever it is bound. -/
theorem hygienic_partName {name : String} {n n' : Names} {body : List Statement}
    (h : Tidy [name] n n' body) :
    Hygienic (partName name body).toList n n' body ∧
      ∀ x ∈ (partName name body).toList, x = name ∧ x ∈ FieldRules.minted (code body) := by
  cases body with
  | nil => exact ⟨.nil h.le, fun x hx => (nomatch hx)⟩
  | cons t ss =>
    refine ⟨h.toHygienic, fun x hx => ?_⟩
    have hx : x ∈ [name] := hx
    exact ⟨List.mem_singleton.mp hx, h.mem_minted (List.cons_ne_nil t ss) hx⟩

theorem nodup_toList {α : Type} (o : Option α) : o.toList.Nodup := by
  cases o with
  | none => exact List.nodup_nil
  | some a => exact List.nodup_cons.mpr ⟨List.not_mem_nil, List.nodup_nil⟩

theorem emitsTidy_map (size : Limits (Bound Nat)) {k v : Plan} (hk : k.EmitsTidy)
    (hv : v.EmitsTidy) : (map size k v).EmitsTidy := by
  intro c s ho
  have hkey : keyStem ∈ Names.stems := by decide
  have hvalue : valueStem ∈ Names.stems := by decide
  have hguards := tidy_emitSize c s size (n := s.names)
  have hnames := names_emitSize c s size
  rw [emit_map]
  generalize emitSize size c s = out at hguards hnames
  obtain ⟨guards, s₀⟩ := out
  simp only at hguards hnames
  rw [← hnames] at hguards ho ⊢
  simp only
  have hle₁ := s₀.le_minted keyStem
  have hle₂ := (s₀.minted keyStem).le_minted valueStem
  have hkeys := hk.minted c hkey "[key]" s₀.names (s := (s₀.minted keyStem).minted valueStem) hle₂
  generalize k.emit (c.minted keyStem "[key]" s₀.names) ((s₀.minted keyStem).minted valueStem) =
    keys at hkeys
  have hvalues := hv.minted c hvalue "[value]" (s₀.minted keyStem).names (s := keys.2) hkeys.le
  generalize v.emit (c.minted valueStem "[value]" (s₀.minted keyStem).names) keys.2 = values
    at hvalues
  obtain ⟨hkeys', hkeyUsed⟩ := hygienic_partName hkeys
  obtain ⟨hvalues', hvalueUsed⟩ := hygienic_partName hvalues
  have hne := Names.mint_ne hkey hvalue (by decide) s₀.names (s₀.minted keyStem).names
  have hbetween : ∀ x ∈ (partName (s₀.names.mint keyStem).1 keys.1).toList ++
      (partName ((s₀.minted keyStem).names.mint valueStem).1 values.1).toList,
      Names.Between s₀.names ((s₀.minted keyStem).minted valueStem).names x := by
    intro x hx
    rcases List.mem_append.mp hx with hx | hx
    · rw [(hkeyUsed x hx).1]
      exact (Names.between_mint hkey s₀.names).mono (Names.Le.refl _) hle₂
    · rw [(hvalueUsed x hx).1]
      exact (Names.between_mint hvalue _).mono hle₁ (Names.Le.refl _)
  have hbody := (hkeys'.weaken (List.subset_append_left _ _)).append
    (hvalues'.weaken (List.subset_append_right _ _))
    fun x hx => (hbetween x hx).mono (Names.nil_le _) (Names.Le.refl _)
  refine hguards.append (.unlessEmpty rfl rfl (fun x => ?_) ?_ hbetween (hle₁.trans hle₂) ho ?_
    hbody) ho
  · rw [Statement.minted_forEntries]
    · simp only [List.count_append]
      omega
    · intro x hx
      rw [(hkeyUsed x (Option.mem_toList.mpr hx)).1]
      exact isMinted_mint hkey _
    · intro x hx
      rw [(hvalueUsed x (Option.mem_toList.mpr hx)).1]
      exact isMinted_mint hvalue _
  · refine List.nodup_append.mpr ⟨nodup_toList _, nodup_toList _, fun x hx y hy => ?_⟩
    rw [(hkeyUsed x hx).1, (hvalueUsed y hy).1]
    exact hne
  · intro x hx
    rw [minted_code_append, List.mem_append]
    exact (List.mem_append.mp hx).imp (fun hx => (hkeyUsed x hx).2) fun hx => (hvalueUsed x hx).2

theorem tidy_emitFields {fields : List (Field Plan)} (h : ∀ f ∈ fields, f.node.EmitsTidy)
    (c : Context) (s : Scope) (ho : s.names.Before (FieldRules.minted c.reach.tokens)) :
    Tidy (FieldRules.minted c.reach.tokens) s.names (emitFields fields c s).2.names
      (emitFields fields c s).1 := by
  induction fields generalizing s with
  | nil => exact .nil (Names.Le.refl _)
  | cons f fields ih =>
    have hreach : FieldRules.minted (c.member f.member f.name).reach.tokens =
        FieldRules.minted c.reach.tokens := Reach.minted_member c.reach f.member
    have hfirst := h f List.mem_cons_self (c.member f.member f.name) s (hreach.symm ▸ ho)
    rw [hreach] at hfirst
    have hrest := ih (fun g hg => h g (List.mem_cons_of_mem f hg)) _ (ho.mono hfirst.le)
    exact hfirst.append hrest ho

theorem emitsTidy_inline {fields : List (Field Plan)} {chain : Chain}
    (hc : ∀ ts ∈ chain.supplied, Free ts) (h : ∀ f ∈ fields, f.node.EmitsTidy) :
    (inline fields chain).EmitsTidy := by
  intro c s ho
  rw [emit_inline, names_chain]
  exact (tidy_emitFields h c s ho).append (tidy_chain c _ hc free_nil) ho

theorem emitsTidy_delegated {chain : Chain} (hc : ∀ ts ∈ chain.supplied, Free ts) :
    (delegated chain).EmitsTidy := by
  intro c s ho
  rw [emit_delegated, names_chain]
  have hcall : Tidy (FieldRules.minted c.reach.tokens) s.names s.names
      [.delegate c.reach c.field] := by
    refine .leaf (fun t ht u hu => ?_) fun t ht => ?_
    · cases List.mem_singleton.mp ht
      cases List.mem_singleton.mp hu
      rfl
    · cases List.mem_singleton.mp ht
      exact Statement.minted_delegate _ _
  exact hcall.append (tidy_chain c _ hc free_nil) ho

theorem emitsTidy_wrapper {ty : Ty} {mode : WrapperMode} {inner : Plan} {chain : Chain}
    (hty : Free ty.tokens) (hc : ∀ ts ∈ chain.supplied, Free ts) (h : inner.EmitsTidy) :
    (wrapper ty mode inner chain).EmitsTidy := by
  intro c s ho
  rw [emit_wrapper, names_chain]
  have hreach : FieldRules.minted (wrapped c mode).reach.tokens =
      FieldRules.minted c.reach.tokens := by
    cases mode with
    | transparent => rfl
    | newtype => exact Reach.minted_member c.reach (.index 0)
  have hinner := h (wrapped c mode) s (hreach.symm ▸ ho)
  rw [hreach] at hinner
  exact hinner.append (tidy_chain c _ hc hty) ho

theorem emitsTidy_interface (indirect : Bool) {chain : Chain}
    (hc : ∀ ts ∈ chain.supplied, Free ts) : (interface indirect chain).EmitsTidy := by
  intro c s ho
  rw [emit_interface, names_chain]
  cases indirect with
  | false => exact tidy_chain c s hc free_nil
  | true =>
    have htidy : Tidy (FieldRules.minted c.pointee.reach.tokens) s.names s.names
        (chain.emit c.pointee .value s).1 := tidy_chain c.pointee s hc free_nil
    have hreach : FieldRules.minted c.pointee.reach.tokens = FieldRules.minted c.reach.tokens :=
      Reach.minted_pointee c.reach
    rw [hreach] at htidy
    exact htidy

/-- Code for a plan whose supplied tokens are clean is tidy. -/
theorem Clean.emitsTidy {p : Plan} (h : p.Clean) : p.EmitsTidy := by
  induction p using Plan.induct with
  | scalar check chain => exact emitsTidy_scalar h
  | optional nullable inner ih => exact emitsTidy_optional nullable (ih h)
  | array size item ih => exact emitsTidy_array size (ih h)
  | map size k v ihk ihv =>
    exact emitsTidy_map size (ihk fun ts ht => h ts (List.mem_append_left _ ht))
      (ihv fun ts ht => h ts (List.mem_append_right _ ht))
  | inline fields chain ih =>
    refine emitsTidy_inline (fun ts ht => h ts (List.mem_append_right _ ht)) fun f hf => ?_
    exact ih f hf fun ts ht => h ts (List.mem_append_left _ (mem_suppliedFields hf ht))
  | delegated chain => exact emitsTidy_delegated h
  | wrapper ty mode inner chain ih =>
    refine emitsTidy_wrapper (h _ List.mem_cons_self) (fun ts ht => ?_) (ih fun ts ht => ?_)
    · exact h ts (List.mem_cons_of_mem _ (List.mem_append_right _ ht))
    · exact h ts (List.mem_cons_of_mem _ (List.mem_append_left _ ht))
  | interface indirect chain => exact emitsTidy_interface indirect h
  | skip => exact fun c s ho => .nil (Names.Le.refl _)

/-! ## Loops over maps -/

/-- A loop over entries stems from a map of the plan: its body is the code of the keys and then that
of the values, a part is bound to the name by which its code reaches it, and a part without code is
not bound. -/
def LoopsOver (p : Plan) (key val : Option String) (body : List Statement) : Prop :=
  ∃ size k v ck sk cv sv, map size k v ∈ p.nodes ∧
    body = (k.emit ck sk).1 ++ (v.emit cv sv).1 ∧
    (key = none ↔ (k.emit ck sk).1 = []) ∧ (val = none ↔ (v.emit cv sv).1 = []) ∧
    (∀ x ∈ key, ck.reach = .binding x) ∧ ∀ x ∈ val, cv.reach = .binding x

theorem LoopsOver.mono {p q : Plan} {key val : Option String} {body : List Statement}
    (h : p.LoopsOver key val body) (hn : p.nodes ⊆ q.nodes) : q.LoopsOver key val body := by
  obtain ⟨size, k, v, ck, sk, cv, sv, hm, h⟩ := h
  exact ⟨size, k, v, ck, sk, cv, sv, hn hm, h⟩

theorem partName_eq_none {name : String} {body : List Statement} :
    partName name body = none ↔ body = [] := by
  cases body with
  | nil => exact ⟨fun _ => rfl, fun _ => rfl⟩
  | cons t ss => exact ⟨fun h => (nomatch h), fun h => (nomatch h)⟩

theorem eq_of_mem_partName {name x : String} {body : List Statement}
    (h : x ∈ partName name body) : x = name := by
  cases body with
  | nil => cases h
  | cons t ss => cases h; rfl

theorem mem_parts_unlessEmpty {wrap : List Statement → Statement} {body : List Statement}
    {u : Statement} (hparts : (wrap body).parts = wrap body :: parts body)
    (h : u ∈ parts (FieldRules.unlessEmpty wrap body)) : u = wrap body ∨ u ∈ parts body := by
  unfold FieldRules.unlessEmpty at h
  split at h
  · cases h
  · rw [parts_singleton, hparts] at h
    exact List.mem_cons.mp h

theorem arm?_of_mem_parts_scalarCheck {check : ScalarCheck} {c : Context} {s : Scope}
    {u : Statement} (h : u ∈ parts (check.emit c s).1) : u.arm? = none := by
  cases check with
  | integer range =>
    rw [ScalarCheck.emit_integer] at h
    rcases mem_parts_unlessEmpty rfl h with rfl | h
    · rfl
    · exact arm?_of_mem_parts_emitLimits s _ _ _ _ _ h
  | float range => exact arm?_of_mem_parts_emitLimits s _ _ _ _ _ h
  | string length =>
    rw [ScalarCheck.emit_string] at h
    rcases mem_parts_unlessEmpty rfl h with rfl | h
    · rfl
    · exact arm?_of_mem_parts_emitLimits s _ _ _ _ _ h
  | byte => cases h
  | bool => cases h

theorem arm?_of_mem_parts_chain {chain : Chain} {c : Context} {receiver : Receiver} {s : Scope}
    {u : Statement} (h : u ∈ parts (chain.emit c receiver s).1) : u.arm? = none := by
  obtain ⟨t, ht, hu⟩ := mem_parts.mp h
  obtain ⟨v, -, rfl⟩ := List.mem_map.mp ht
  cases List.mem_singleton.mp hu
  rfl

variable {key val : Option String} {r : Reach} {body : List Statement}

theorem mem_parts_presence {nullable : Bool} {name : String} {c : Context}
    {inside : List Statement}
    (h : .forEntries key val r body ∈ parts (presence nullable name c inside)) :
    .forEntries key val r body ∈ parts inside := by
  unfold presence at h
  split at h
  · rcases mem_parts_unlessEmpty rfl h with h | h
    · cases h
    · exact h
  · split at h
    · rw [parts_singleton] at h
      cases List.mem_singleton.mp h
    · rw [parts_singleton] at h
      rcases List.mem_cons.mp h with h | h
      · cases h
      · exact h

theorem exists_of_mem_parts_emitFields {fields : List (Field Plan)} {c : Context} {s : Scope}
    {u : Statement} (h : u ∈ parts (emitFields fields c s).1) :
    ∃ f ∈ fields, ∃ c' s', u ∈ parts (f.node.emit c' s').1 := by
  induction fields generalizing s with
  | nil => cases h
  | cons f fields ih =>
    rw [emitFields_cons, parts_append] at h
    rcases List.mem_append.mp h with h | h
    · exact ⟨f, List.mem_cons_self, _, _, h⟩
    · obtain ⟨g, hg, h⟩ := ih h
      exact ⟨g, List.mem_cons_of_mem f hg, h⟩

/-- Every loop over entries that is emitted for a plan stems from one of its maps. -/
theorem loopsOver_of_mem_parts {p : Plan} {c : Context} {s : Scope}
    (h : .forEntries key val r body ∈ parts (p.emit c s).1) : p.LoopsOver key val body := by
  have hnot : ∀ {t : Statement}, t = .forEntries key val r body → t.arm? ≠ none := by
    rintro t rfl
    exact Option.some_ne_none body
  induction p using Plan.induct generalizing c s with
  | scalar check chain =>
    rw [emit_scalar, parts_append] at h
    rcases List.mem_append.mp h with h | h
    · exact absurd (arm?_of_mem_parts_scalarCheck h) (hnot rfl)
    · exact absurd (arm?_of_mem_parts_chain h) (hnot rfl)
  | optional nullable inner ih =>
    rw [emit_optional] at h
    exact (ih (mem_parts_presence h)).mono (List.subset_cons_self _ _)
  | array size item ih =>
    rw [emit_array, parts_append] at h
    rcases List.mem_append.mp h with h | h
    · exact absurd (arm?_of_mem_parts_emitLimits s _ _ _ _ _ h) (hnot rfl)
    · rcases mem_parts_unlessEmpty rfl h with h | h
      · cases h
      · exact (ih h).mono (List.subset_cons_self _ _)
  | map size k v ihk ihv =>
    rw [emit_map, parts_append] at h
    rcases List.mem_append.mp h with h | h
    · exact absurd (arm?_of_mem_parts_emitLimits s _ _ _ _ _ h) (hnot rfl)
    · rcases mem_parts_unlessEmpty rfl h with h | h
      · cases h
        refine ⟨size, k, v, _, _, _, _, List.mem_cons_self, rfl, partName_eq_none,
          partName_eq_none, fun x hx => ?_, fun x hx => ?_⟩
        · rw [eq_of_mem_partName hx]
          rfl
        · rw [eq_of_mem_partName hx]
          rfl
      · rw [parts_append] at h
        rcases List.mem_append.mp h with h | h
        · exact (ihk h).mono fun q hq => List.mem_cons_of_mem _ (List.mem_append_left _ hq)
        · exact (ihv h).mono fun q hq => List.mem_cons_of_mem _ (List.mem_append_right _ hq)
  | inline fields chain ih =>
    rw [emit_inline, parts_append] at h
    rcases List.mem_append.mp h with h | h
    · obtain ⟨f, hf, c', s', h⟩ := exists_of_mem_parts_emitFields h
      exact (ih f hf h).mono fun q hq => List.mem_cons_of_mem _ (mem_nodesFields hf hq)
    · exact absurd (arm?_of_mem_parts_chain h) (hnot rfl)
  | delegated chain =>
    rw [emit_delegated, parts] at h
    rcases List.mem_append.mp h with h | h
    · cases List.mem_singleton.mp h
    · exact absurd (arm?_of_mem_parts_chain h) (hnot rfl)
  | wrapper ty mode inner chain ih =>
    rw [emit_wrapper, parts_append] at h
    rcases List.mem_append.mp h with h | h
    · exact (ih h).mono (List.subset_cons_self _ _)
    · exact absurd (arm?_of_mem_parts_chain h) (hnot rfl)
  | interface indirect chain =>
    rw [emit_interface] at h
    exact absurd (arm?_of_mem_parts_chain h) (hnot rfl)
  | skip => cases h

end Plan

/-! ## All code of a routine -/

/-- The code of several plans, emitted one after the other with one scope. -/
def emitAll : List (Plan × Context) → Scope → List Statement × Scope
  | [], s => ([], s)
  | (p, c) :: rest, s =>
    let first := p.emit c s
    let others := emitAll rest first.2
    (first.1 ++ others.1, others.2)

theorem hygienic_emitAll {jobs : List (Plan × Context)} (hplans : ∀ j ∈ jobs, j.1.Clean)
    (hstart : ∀ j ∈ jobs, Free j.2.reach.tokens) (s : Scope) :
    Hygienic [] s.names (emitAll jobs s).2.names (emitAll jobs s).1 := by
  induction jobs generalizing s with
  | nil => exact .nil (Names.Le.refl _)
  | cons j jobs ih =>
    have hreach : minted j.2.reach.tokens = [] := (hstart j List.mem_cons_self).minted
    have hbefore : ∀ n : Names, n.Before [] := fun _ _ hx => (nomatch hx)
    have hfirst := (hplans j List.mem_cons_self).emitsTidy j.2 s (hreach ▸ hbefore s.names)
    rw [hreach] at hfirst
    have hrest := ih (fun i hi => hplans i (List.mem_cons_of_mem j hi))
      (fun i hi => hstart i (List.mem_cons_of_mem j hi)) (j.1.emit j.2 s).2
    exact hfirst.toHygienic.append hrest (hbefore _)

theorem exists_of_mem_parts_emitAll {jobs : List (Plan × Context)} {s : Scope} {u : Statement}
    (h : u ∈ parts (emitAll jobs s).1) :
    ∃ j ∈ jobs, ∃ s', u ∈ parts (j.1.emit j.2 s').1 := by
  induction jobs generalizing s with
  | nil => cases h
  | cons j jobs ih =>
    rw [emitAll, parts_append] at h
    rcases List.mem_append.mp h with h | h
    · exact ⟨j, List.mem_cons_self, s, h⟩
    · obtain ⟨i, hi, h⟩ := ih h
      exact ⟨i, List.mem_cons_of_mem j hi, h⟩

/-- All code that is emitted with one scope is hygienic, if no supplied tokens contain a name that
is kept for generated code. The names that loops and patterns bind are different; each of them
occurs once where it is bound and otherwise only in the body that it is bound for, where it does
occur; a part of an entry is bound exactly if there is code for it; and no body is empty. -/
theorem emitAll_hygienic {jobs : List (Plan × Context)} (hplans : ∀ j ∈ jobs, j.1.Clean)
    (hstart : ∀ j ∈ jobs, Free j.2.reach.tokens) (s : Scope) :
    let all := (emitAll jobs s).1
    ((binders all).map Binder.name).Nodup ∧
      (∀ b ∈ binders all,
        (vars (code all)).count b.name = 1 + (vars (code b.body)).count b.name ∧
        b.name ∈ vars (code b.body)) ∧
      (∀ key val r body, .forEntries key val r body ∈ parts all →
        ∃ j ∈ jobs, j.1.LoopsOver key val body) ∧
      ∀ t ∈ parts all, ∀ body, t.arm? = some body → code body ≠ [] := by
  intro all
  have h : Hygienic [] s.names (emitAll jobs s).2.names all := hygienic_emitAll hplans hstart s
  refine ⟨h.nodup, fun b hb => ?_, fun key val r body hmem => ?_, fun t ht body hbody => ?_⟩
  · have hminted : isMinted b.name = true := by
      obtain ⟨stem, hs, i, -, -, hi⟩ := h.between b hb
      rw [hi]
      exact isMinted_nth hs i
    refine ⟨?_, ?_⟩
    · rw [← count_minted hminted, ← count_minted hminted]
      exact h.once b hb
    · exact (List.mem_filter.mp (h.used b hb)).1
  · obtain ⟨j, hj, s', hmem⟩ := exists_of_mem_parts_emitAll hmem
    exact ⟨j, hj, Plan.loopsOver_of_mem_parts hmem⟩
  · exact code_ne_nil (h.filled t ht body hbody)

instance (ts : List Token) : Decidable (Free ts) :=
  inferInstanceAs (Decidable (∀ name ∈ vars ts, ¬ reservedPrefix.toList <+: name.toList))

instance (p : Plan) : Decidable p.Clean :=
  inferInstanceAs (Decidable (∀ ts ∈ p.supplied, Free ts))

/-- Two maps of one routine: short names with lists of positive scores, and codes of a named type
whose values check themselves. -/
def scoreJobs : List (Plan × Context) :=
  let positive : Plan := .scalar (.integer ⟨some ⟨"1", 1⟩, none⟩) [.method (.ofName "even")]
  let short : Plan := .scalar (.string ⟨none, some ⟨"8", 8⟩⟩) []
  let code : Plan := .wrapper (.path false [.mk (.ofName "Code") .none]) .newtype
    (.scalar .byte []) []
  [(.map .none short (.optional false (.array .none positive)), .root),
    (.map ⟨some ⟨"1", 1⟩, none⟩ code (.optional true (.delegated [])),
      ⟨.given [.ident "other"], "other", 0⟩)]

theorem emitAll_hygienic_scoreJobs :
    let all := (emitAll scoreJobs .empty).1
    ((∀ j ∈ scoreJobs, j.1.Clean) ∧ ∀ j ∈ scoreJobs, Free j.2.reach.tokens) ∧
      (((binders all).map Binder.name).Nodup ∧
        (∀ b ∈ binders all,
          (vars (code all)).count b.name = 1 + (vars (code b.body)).count b.name ∧
          b.name ∈ vars (code b.body)) ∧
        (∀ key val r body, .forEntries key val r body ∈ parts all →
          ∃ j ∈ scoreJobs, j.1.LoopsOver key val body) ∧
        ∀ t ∈ parts all, ∀ body, t.arm? = some body → code body ≠ []) ∧
      (binders all).map Binder.name = ["__tagval_key", "__tagval_value", "__tagval_present",
        "__tagval_item", "__tagval_value1", "__tagval_present1"] := by
  have hplans : ∀ j ∈ scoreJobs, j.1.Clean := by decide
  have hstart : ∀ j ∈ scoreJobs, Free j.2.reach.tokens := by decide
  exact ⟨⟨hplans, hstart⟩, emitAll_hygienic hplans hstart .empty, by decide⟩

end FieldRules
