import FieldRules.Proofs.Run.Code
import FieldRules.Proofs.Config.Freezing
import FieldRules.Proofs.Config.Delivery

/-!
# More tags accept less

`Stricter d d'` compares two trees of one shape by their slots: `d'` holds every tag of `d` except
perhaps `nullable`, and it holds `nullable` only where `d` does. Whatever the code of such a `d'`
accepts, the code of `d` accepts (`Draft.looser`). The induction is on the tree and goes through all
values and paths, node by node: a limit or a chain that `d` has is also one of `d'`, and only an
absent value is judged by a flag.

A tag that is taken is stored in empty slots, so the tree after it holds all tags of the tree before
it. Which of the two trees is the stricter one depends on whether the tag brings `nullable`
(`Draft.setTag_tightens`).
-/

namespace FieldRules

/-! ## Acceptance -/

namespace Outcome

/-- No check failed. -/
def Accepts (o : Outcome) : Prop := o.failure = none

instance (o : Outcome) : Decidable o.Accepts := inferInstanceAs (Decidable (o.failure = none))

theorem accepts_pass : pass.Accepts := rfl

theorem accepts_andThen {a b : Outcome} : (a.andThen b).Accepts ↔ a.Accepts ∧ b.Accepts := by
  unfold Accepts andThen
  cases h : a.failure with
  | none => simp
  | some f => simp [h]

theorem accepts_failIf {bad : Bool} {f : Failure} : (failIf bad f).Accepts ↔ bad = false := by
  cases bad with
  | true => exact ⟨nofun, nofun⟩
  | false => exact ⟨fun _ => rfl, fun _ => rfl⟩

theorem accepts_forEach {α : Type} {run : α → Outcome} {as : List α} :
    (forEach run as).Accepts ↔ ∀ a ∈ as, (run a).Accepts := by
  induction as with
  | nil => exact ⟨fun _ => nofun, fun _ => rfl⟩
  | cons a as ih => rw [forEach_cons, accepts_andThen, ih, List.forall_mem_cons]

theorem accepts_under {o : Outcome} {path : String} : (o.under path).Accepts ↔ o.Accepts := by
  unfold Accepts under
  exact Option.map_eq_none_iff

end Outcome

theorem Limits.accepts_check {α : Type} {limits : Limits (Bound α)} {exceeds : Side → α → Bool}
    {lower upper : Bound α → Violation} {path : String} :
    (limits.check exceeds lower upper path).Accepts ↔
      (∀ b, limits.lower = some b → exceeds .below b.value = false) ∧
        ∀ b, limits.upper = some b → exceeds .above b.value = false := by
  obtain ⟨low, high⟩ := limits
  rw [Limits.check, Outcome.accepts_andThen]
  cases low <;> cases high <;>
    simp [Outcome.accepts_failIf, Outcome.accepts_pass]

/-- The validators of a chain accept a value at one path if they do at another. -/
theorem Chain.accepts_check {chain : Chain} {w : World} {receiver : Receiver} {v : Value}
    {path : String} : (chain.check w receiver v path).Accepts ↔
      ∀ c ∈ chain, (c.check w receiver v).Accepts := by
  rw [Chain.check, Outcome.accepts_forEach]
  exact forall₂_congr fun _ _ => Outcome.accepts_under

/-! ## Trees with more tags -/

namespace Draft

/-- The tree `d'` has the shape of `d` and all its tags but `nullable`, and has `nullable` only
where `d` has it. -/
structure Stricter (d d' : Draft) : Prop where
  bare : d'.bare = d.bare
  /-- The tags of the one are tags of the other. -/
  holds : ∀ path k t, k ≠ .nullable → d.look path k = some (some t) → d'.look path k = some (some t)
  /-- What may be absent may have been absent before. -/
  nullable : ∀ path t, d'.look path .nullable = some (some t) →
    d.look path .nullable = some (some t)

theorem bareFields_eq_map (fields : List (Field Draft)) :
    bareFields fields = fields.map fun f => ⟨f.member, f.name, f.node.bare⟩ := by
  induction fields with
  | nil => rfl
  | cons f fields ih => rw [bareFields, ih, List.map_cons]

theorem child?_bare (st : Step) (d : Draft) : d.bare.child? st = (d.child? st).map bare := by
  cases d with
  | inline fields func =>
    cases st with
    | field n =>
      simp only [bare, child?, bareFields_eq_map, List.getElem?_map, Option.map_map]
      rfl
    | _ => rfl
  | _ => cases st <;> rfl

theorem Stricter.child {d d' e e' : Draft} (h : Stricter d d') (st : Step)
    (hd : d.child? st = some e) (hd' : d'.child? st = some e') : Stricter e e' := by
  have hlook : ∀ path k, d.look (st :: path) k = e.look path k := by
    intro path k
    rw [look_cons, hd, Option.bind_some]
  have hlook' : ∀ path k, d'.look (st :: path) k = e'.look path k := by
    intro path k
    rw [look_cons, hd', Option.bind_some]
  refine ⟨?_, fun path k t hk ht => ?_, fun path t ht => ?_⟩
  · have hbare := child?_bare st d
    rw [← h.bare, child?_bare, hd, hd'] at hbare
    exact Option.some.inj hbare
  · rw [← hlook] at ht
    rw [← hlook']
    exact h.holds _ k t hk ht
  · rw [← hlook'] at ht
    rw [← hlook]
    exact h.nullable _ t ht

/-- A slot for a parameter keeps what it holds. -/
theorem Stricter.param {d d' : Draft} (h : Stricter d d') (k : Key) (hk : k ≠ .nullable)
    {slot slot' : Option String} (hslot : d.slot? k = some (heldParam k slot))
    (hslot' : d'.slot? k = some (heldParam k slot')) : slot = none ∨ slot' = slot := by
  cases slot with
  | none => exact .inl rfl
  | some text =>
    have hheld := h.holds [] k (.simple k (some text)) hk hslot
    have hkeep : some (heldParam k slot') = some (heldParam k (some text)) :=
      hslot'.symm.trans hheld
    exact .inr (heldParam_inj (Option.some.inj hkeep))

end Draft

/-! ## What limits and chains accept -/

section Slots

variable {α : Type} {read : Key → String → Except ConfigError (Bound α)} {below : α → α → Bool}
  {lowerKey upperKey : Key} {slots slots' : Limits String} {l l' : Limits (Bound α)}
  {exceeds : Side → α → Bool} {lower upper : Bound α → Violation} {path path' : String}

/-- What is read from a slot that keeps what it holds. -/
theorem Bound.ofSlot_mono {k : Key} {slot slot' : Option String} {b b' : Option (Bound α)}
    (h : slot = none ∨ slot' = slot) (hb : ofSlot read k slot = .ok b)
    (hb' : ofSlot read k slot' = .ok b') : b = none ∨ b' = b := by
  rcases h with rfl | rfl
  · cases hb
    exact .inl rfl
  · exact .inr (Except.ok.inj (hb'.symm.trans hb))

/-- Limits accept what limits with the same texts or more accept. -/
theorem Limits.accepts_mono (hlower : slots.lower = .none ∨ slots'.lower = slots.lower)
    (hupper : slots.upper = .none ∨ slots'.upper = slots.upper)
    (hl : Limits.read read below lowerKey upperKey slots = .ok l)
    (hl' : Limits.read read below lowerKey upperKey slots' = .ok l')
    (h : (l'.check exceeds lower upper path').Accepts) :
    (l.check exceeds lower upper path).Accepts := by
  obtain ⟨hlow, hup⟩ := Limits.read_eq_ok hl
  obtain ⟨hlow', hup'⟩ := Limits.read_eq_ok hl'
  obtain ⟨hbelow, habove⟩ := Limits.accepts_check.mp h
  refine Limits.accepts_check.mpr ⟨fun b hb => ?_, fun b hb => ?_⟩
  · rcases Bound.ofSlot_mono hlower hlow hlow' with hnone | hsame
    · rw [hnone] at hb
      cases hb
    · exact hbelow b (hsame.trans hb)
  · rcases Bound.ofSlot_mono hupper hup hup' with hnone | hsame
    · rw [hnone] at hb
      cases hb
    · exact habove b (hsame.trans hb)

/-- A chain accepts what it accepts at another path, and a missing chain accepts everything. -/
theorem Chain.accepts_mono {func func' : Option String} {chain chain' : Chain}
    (h : func = none ∨ func' = func) (hc : Chain.ofSlot func = .ok chain)
    (hc' : Chain.ofSlot func' = .ok chain') {w : World} {receiver : Receiver} {v : Value}
    (hv : (chain'.check w receiver v path').Accepts) : (chain.check w receiver v path).Accepts := by
  rcases h with rfl | rfl
  · cases hc
    exact Outcome.accepts_pass
  · cases hc.symm.trans hc'
    exact Chain.accepts_check.mpr (Chain.accepts_check.mp hv)

end Slots

/-! ## Code of stricter trees -/

namespace Draft

variable {w : World} {d d' : Draft} {p p' : Plan} {v : Value} {path path' : String}

/-- The code of a tree accepts what that of a stricter tree accepts, also at another path. -/
def Looser (w : World) (d : Draft) : Prop :=
  ∀ {d' : Draft} {p p' : Plan}, Stricter d d' → d.freeze = .ok p → d'.freeze = .ok p' →
    ∀ {v path path'}, (p'.runAt w v path').Accepts → (p.runAt w v path).Accepts

theorem accepts_scalarCheck {kind : ScalarKind} {limits limits' : Limits String}
    {func func' : Option String} {check check' : ScalarCheck}
    (h : Stricter (.scalar kind limits func) (.scalar kind limits' func'))
    (hc : freezeScalar limits kind = .ok check) (hc' : freezeScalar limits' kind = .ok check')
    (hv : (check'.runAt v path').Accepts) : (check.runAt v path).Accepts := by
  cases kind with
  | integer =>
    obtain ⟨range, hr, rfl⟩ := map_eq_ok.mp hc
    obtain ⟨range', hr', rfl⟩ := map_eq_ok.mp hc'
    have hmin := h.param .min nofun rfl rfl
    have hmax := h.param .max nofun rfl rfl
    exact Limits.accepts_mono hmin hmax hr hr' hv
  | float =>
    obtain ⟨range, hr, rfl⟩ := map_eq_ok.mp hc
    obtain ⟨range', hr', rfl⟩ := map_eq_ok.mp hc'
    have hmin := h.param .min nofun rfl rfl
    have hmax := h.param .max nofun rfl rfl
    exact Limits.accepts_mono hmin hmax hr hr' hv
  | string =>
    obtain ⟨length, hl, rfl⟩ := map_eq_ok.mp hc
    obtain ⟨length', hl', rfl⟩ := map_eq_ok.mp hc'
    have hmin := h.param .minLen nofun rfl rfl
    have hmax := h.param .maxLen nofun rfl rfl
    exact Limits.accepts_mono hmin hmax hl hl' hv
  | byte =>
    cases hc
    exact Outcome.accepts_pass
  | bool =>
    cases hc
    exact Outcome.accepts_pass

theorem looser_scalar (kind : ScalarKind) (limits : Limits String) (func : Option String) :
    (scalar kind limits func).Looser w := by
  intro d' p p' h hp hp' v path path' hv
  have hb := h.bare
  cases d' with
  | scalar kind' limits' func' =>
    obtain rfl : kind' = kind := (scalar.inj hb).1
    obtain ⟨check, chain, hk, hc, rfl⟩ := freeze_scalar hp
    obtain ⟨check', chain', hk', hc', rfl⟩ := freeze_scalar hp'
    rw [Plan.runAt_scalar, Outcome.accepts_andThen] at hv ⊢
    have hfunc : func = none ∨ func' = func :=
      h.param .func nofun (by cases kind' <;> rfl) (by cases kind' <;> rfl)
    exact ⟨accepts_scalarCheck h hk hk' hv.1, Chain.accepts_mono hfunc hc hc' hv.2⟩
  | _ => cases hb

theorem looser_optional (nullable notNull : Bool) {inner : Draft} (ih : inner.Looser w) :
    (optional nullable notNull inner).Looser w := by
  intro d' p p' h hp hp' v path path' hv
  have hb := h.bare
  cases d' with
  | optional nullable' notNull' inner' =>
    obtain ⟨q, hq, rfl⟩ := freeze_optional hp
    obtain ⟨q', hq', rfl⟩ := freeze_optional hp'
    rw [Plan.runAt_optional] at hv ⊢
    cases hinside : v.inside? with
    | some u =>
      simp only [hinside] at hv ⊢
      exact ih (h.child .inside rfl rfl) hq hq' hv
    | none =>
      simp only [hinside, Outcome.accepts_failIf, Bool.not_eq_false'] at hv ⊢
      subst hv
      have hheld : some (heldFlag .nullable nullable) = some (some (.simple .nullable none)) :=
        h.nullable [] _ rfl
      exact heldFlag_inj (b := true) (Option.some.inj hheld)
  | _ => cases hb

theorem looser_array (size : Limits String) {item : Draft} (ih : item.Looser w) :
    (array size item).Looser w := by
  intro d' p p' h hp hp' v path path' hv
  have hb := h.bare
  cases d' with
  | array size' item' =>
    obtain ⟨l, q, hl, hq, rfl⟩ := freeze_array hp
    obtain ⟨l', q', hl', hq', rfl⟩ := freeze_array hp'
    rw [Plan.runAt_array, Outcome.accepts_andThen, Outcome.accepts_forEach] at hv ⊢
    have hmin := h.param .minItems nofun rfl rfl
    have hmax := h.param .maxItems nofun rfl rfl
    refine ⟨Limits.accepts_mono hmin hmax hl hl' hv.1, fun u hu => ?_⟩
    exact ih (h.child .item rfl rfl) hq hq' (hv.2 u hu)
  | _ => cases hb

theorem looser_map (size : Limits String) {key value : Draft} (ihk : key.Looser w)
    (ihv : value.Looser w) : (map size key value).Looser w := by
  intro d' p p' h hp hp' v path path' hv
  have hb := h.bare
  cases d' with
  | map size' key' value' =>
    obtain ⟨l, q, r, hl, hq, hr, rfl⟩ := freeze_map hp
    obtain ⟨l', q', r', hl', hq', hr', rfl⟩ := freeze_map hp'
    simp only [Plan.runAt_map, Outcome.accepts_andThen, Outcome.accepts_forEach] at hv ⊢
    have hmin := h.param .minItems nofun rfl rfl
    have hmax := h.param .maxItems nofun rfl rfl
    refine ⟨Limits.accepts_mono hmin hmax hl hl' hv.1, fun e he => ⟨?_, ?_⟩⟩
    · exact ihk (h.child .key rfl rfl) hq hq' (hv.2 e he).1
    · exact ihv (h.child .value rfl rfl) hr hr' (hv.2 e he).2
  | _ => cases hb

/-- The fields of a struct, each of them stricter than before. -/
theorem accepts_fields {fields fields' : List (Field Draft)} {plans plans' : List (Field Plan)}
    (ih : ∀ f ∈ fields, f.node.Looser w) (hb : bareFields fields' = bareFields fields)
    (h : ∀ (n : Nat) e e', fields[n]?.map Field.node = some e →
      fields'[n]?.map Field.node = some e' → Stricter e e')
    (hp : freezeFields fields = .ok plans) (hp' : freezeFields fields' = .ok plans')
    (hv : (Plan.fieldsRunAt w plans' v path').Accepts) :
    (Plan.fieldsRunAt w plans v path).Accepts := by
  induction fields generalizing fields' plans plans' with
  | nil =>
    cases hp
    exact Outcome.accepts_pass
  | cons f fields ihf =>
    cases fields' with
    | nil => cases hb
    | cons f' fields' =>
      simp only [bareFields, List.cons.injEq, Field.mk.injEq] at hb
      obtain ⟨⟨hmember, -, -⟩, hrest⟩ := hb
      obtain ⟨q, rest, hq, hr, rfl⟩ := freezeFields_cons hp
      obtain ⟨q', rest', hq', hr', rfl⟩ := freezeFields_cons hp'
      rw [Plan.fieldsRunAt, Outcome.forEach_cons, Outcome.accepts_andThen] at hv ⊢
      simp only [hmember] at hv
      have hfirst := h 0 f.node f'.node rfl rfl
      refine ⟨ih f List.mem_cons_self hfirst hq hq' hv.1, ?_⟩
      exact ihf (fun g hg => ih g (List.mem_cons_of_mem f hg)) hrest (fun n => h (n + 1)) hr hr'
        hv.2

theorem looser_inline {fields : List (Field Draft)} (func : Option String)
    (ih : ∀ f ∈ fields, f.node.Looser w) : (inline fields func).Looser w := by
  intro d' p p' h hp hp' v path path' hv
  have hb := h.bare
  cases d' with
  | inline fields' func' =>
    obtain ⟨plans, chain, hf, hc, rfl⟩ := freeze_inline hp
    obtain ⟨plans', chain', hf', hc', rfl⟩ := freeze_inline hp'
    rw [Plan.runAt_inline, Outcome.accepts_andThen] at hv ⊢
    have hfields : ∀ (n : Nat) e e', fields[n]?.map Field.node = some e →
        fields'[n]?.map Field.node = some e' → Stricter e e' :=
      fun n e e' he he' => h.child (.field n) he he'
    have hfunc := h.param .func nofun rfl rfl
    exact ⟨accepts_fields ih (inline.inj hb).1 hfields hf hf' hv.1,
      Chain.accepts_mono hfunc hc hc' hv.2⟩
  | _ => cases hb

theorem looser_delegated (func : Option String) : (delegated func).Looser w := by
  intro d' p p' h hp hp' v path path' hv
  have hb := h.bare
  cases d' with
  | delegated func' =>
    obtain ⟨chain, hc, rfl⟩ := freeze_delegated hp
    obtain ⟨chain', hc', rfl⟩ := freeze_delegated hp'
    rw [Plan.runAt_delegated, Outcome.accepts_andThen, Outcome.accepts_under] at hv ⊢
    exact ⟨hv.1, Chain.accepts_mono (h.param .func nofun rfl rfl) hc hc' hv.2⟩
  | _ => cases hb

theorem looser_wrapper (ty : Ty) (mode : WrapperMode) {inner : Draft} (func : Option String)
    (ih : inner.Looser w) : (wrapper ty mode inner func).Looser w := by
  intro d' p p' h hp hp' v path path' hv
  have hb := h.bare
  cases d' with
  | wrapper ty' mode' inner' func' =>
    obtain ⟨rfl, rfl, -, -⟩ := wrapper.inj hb
    obtain ⟨q, chain, hq, hc, rfl⟩ := freeze_wrapper hp
    obtain ⟨q', chain', hq', hc', rfl⟩ := freeze_wrapper hp'
    rw [Plan.runAt_wrapper, Outcome.accepts_andThen] at hv ⊢
    have hfunc := h.param .func nofun rfl rfl
    exact ⟨ih (h.child .wrapped rfl rfl) hq hq' hv.1,
      Chain.accepts_mono hfunc hc hc' hv.2⟩
  | _ => cases hb

theorem looser_interface (indirect : Bool) (func : Option String) :
    (interface indirect func).Looser w := by
  intro d' p p' h hp hp' v path path' hv
  have hb := h.bare
  cases d' with
  | interface indirect' func' =>
    obtain ⟨rfl, -⟩ := interface.inj hb
    obtain ⟨chain, hc, rfl⟩ := freeze_interface hp
    obtain ⟨chain', hc', rfl⟩ := freeze_interface hp'
    rw [Plan.runAt_interface] at hv ⊢
    exact Chain.accepts_mono (h.param .func nofun rfl rfl) hc hc' hv
  | _ => cases hb

theorem looser_skip : skip.Looser w := by
  intro d' p p' h hp hp' v path path' hv
  cases hp
  rw [Plan.runAt_skip]
  exact Outcome.accepts_pass

/-- Every tree is looser than the stricter ones. -/
theorem looser (w : World) (d : Draft) : d.Looser w := by
  induction d using Draft.induct with
  | scalar kind limits func => exact looser_scalar kind limits func
  | optional nullable notNull inner ih => exact looser_optional nullable notNull ih
  | array size item ih => exact looser_array size ih
  | map size key value ihk ihv => exact looser_map size ihk ihv
  | inline fields func ih => exact looser_inline func ih
  | delegated func => exact looser_delegated func
  | wrapper ty mode inner func ih => exact looser_wrapper ty mode func ih
  | interface indirect func => exact looser_interface indirect func
  | skip => exact looser_skip

/-! ## A tag more -/

variable {ws : List Write}

/-- Stored tags leave the tags that were there before. -/
theorem look_of_stores (h : Stores d d' ws) {path : List Step} {k : Key} {t : Tag}
    (ht : d.look path k = some (some t)) : d'.look path k = some (some t) := by
  rw [h.frame path k, ht]
  intro hmem
  obtain ⟨o, ho, hplace⟩ := List.mem_map.mp hmem
  cases hplace
  cases (h.empty o ho).symm.trans ht

/-- A tag without `nullable` makes a tree stricter. -/
theorem stricter_of_stores (h : Stores d d' ws) (hws : ∀ o ∈ ws, o.tag.key ≠ .nullable) :
    Stricter d d' := by
  refine ⟨h.bare, fun path k t _ ht => look_of_stores h ht, fun path t ht => ?_⟩
  rw [← h.frame path .nullable, ht]
  intro hmem
  obtain ⟨o, ho, hplace⟩ := List.mem_map.mp hmem
  exact hws o ho (congrArg Prod.snd hplace)

/-- A tag of nothing but `nullable` makes a tree less strict. -/
theorem stricter_of_stores_nullable (h : Stores d d' ws) (hws : ∀ o ∈ ws, o.tag.key = .nullable) :
    Stricter d' d := by
  refine ⟨h.bare.symm, fun path k t hk ht => ?_, fun path t ht => look_of_stores h ht⟩
  rw [← h.frame path k, ht]
  intro hmem
  obtain ⟨o, ho, hplace⟩ := List.mem_map.mp hmem
  exact hk ((congrArg Prod.snd hplace).symm.trans (hws o ho))

/-- **A further constraint accepts no more values.** Of a tree that freezes before and after a tag
is applied, take the code of both plans, for any contexts that reach the same value. If no
`nullable` stands anywhere in the tag, what the code after it accepts is accepted by the code before
it; if the tag sets nothing but `nullable`, it is the other way around. -/
theorem setTag_tightens {t : Tag} (htaken : (d.setTag t).refusal = none) (hp : d.freeze = .ok p)
    (hp' : (d.setTag t).draft.freeze = .ok p') (w : World) (c c' : Context) (s s' : Scope)
    (env env' : Env) (hvalue : c.reach.eval env = c'.reach.eval env') :
    let before := runAll w (p.emit c s).1 env
    let after := runAll w (p'.emit c' s').1 env'
    ((∀ o ∈ t.occurrences, o.tag.key ≠ .nullable) → after.Accepts → before.Accepts) ∧
      ((∀ o ∈ t.leaves, o.tag.key = .nullable) → before.Accepts → after.Accepts) := by
  intro before after
  obtain ⟨-, ws, hws, hos⟩ := stores_of_setTag t d htaken
  have hleaf : ∀ o ∈ ws, o.toOccurrence ∈ t.leaves := fun o ho => hos ▸ List.mem_map_of_mem ho
  have hbefore : before = p.runAt w (c.reach.eval env) c.field := p.run_emit c s env
  have hafter : after = p'.runAt w (c.reach.eval env) c'.field := by
    rw [hvalue]
    exact p'.run_emit c' s' env'
  rw [hbefore, hafter]
  refine ⟨fun hnone => ?_, fun hall => ?_⟩
  · have hstrict := stricter_of_stores hws fun o ho =>
      hnone o.toOccurrence (List.mem_filter.mp (hleaf o ho)).1
    exact looser w d hstrict hp hp'
  · have hstrict := stricter_of_stores_nullable hws fun o ho => hall o.toOccurrence (hleaf o ho)
    exact looser w _ hstrict hp' hp

/-- Scores that may be absent if `nullable`, each of them at most what `range` says. -/
def scoresPlan (nullable : Bool) (range : Limits (Bound Int)) : Plan :=
  .optional nullable (.array .none (.scalar (.integer range) []))

/-- A limit for elements, which brings a loop into code that had none, and `nullable`, which takes a
check out of it. What one of the codes refuses in each case is accepted by the other. -/
theorem setTag_tightens_scores :
    let d : Draft := .optional false false (.array .none (.leaf .integer))
    let most : Tag := .scope .item [.simple .max (some "7")]
    let absent : Tag := .simple .nullable none
    let limited := scoresPlan false ⟨none, some ⟨"7", 7⟩⟩
    let w : World := ⟨fun _ _ => .pass, fun _ _ _ => .pass, fun _ _ => .pass, fun _ => .pass⟩
    let code (p : Plan) (v : Value) := runAll w (p.emit .root .empty).1 (.ofStart v)
    let scores (n : Int) : Value := .present (.sequence [.integer n])
    (((d.setTag most).refusal = none ∧ d.freeze = .ok (scoresPlan false .none) ∧
        (d.setTag most).draft.freeze = .ok limited) ∧
      (code limited (scores 4)).Accepts ∧ (code (scoresPlan false .none) (scores 4)).Accepts ∧
      ¬ (code limited (scores 9)).Accepts ∧ (code (scoresPlan false .none) (scores 9)).Accepts) ∧
    ((d.setTag absent).refusal = none ∧
        (d.setTag absent).draft.freeze = .ok (scoresPlan true .none)) ∧
      (code (scoresPlan true .none) (scores 9)).Accepts ∧
      (code (scoresPlan true .none) .absent).Accepts ∧
      ¬ (code (scoresPlan false .none) .absent).Accepts := by
  intro d most absent limited w code scores
  have hplan : d.freeze = .ok (scoresPlan false .none) := rfl
  have hmost : (d.setTag most).refusal = none := rfl
  have hlimited : (d.setTag most).draft.freeze = .ok limited := rfl
  have habsent : (d.setTag absent).refusal = none := rfl
  have hoptional : (d.setTag absent).draft.freeze = .ok (scoresPlan true .none) := rfl
  have hfour : (code limited (scores 4)).Accepts := by decide +kernel
  have hnine : (code (scoresPlan false .none) (scores 9)).Accepts := by decide +kernel
  have hless := (setTag_tightens hmost hplan hlimited w .root .root .empty .empty
    (.ofStart (scores 4)) (.ofStart (scores 4)) rfl).1 (by decide +kernel) hfour
  have hmore := (setTag_tightens habsent hplan hoptional w .root .root .empty .empty
    (.ofStart (scores 9)) (.ofStart (scores 9)) rfl).2 (by decide +kernel) hnine
  exact ⟨⟨⟨hmost, hplan, hlimited⟩, hfour, hless, by decide +kernel, hnine⟩,
    ⟨habsent, hoptional⟩, hmore, by decide +kernel, by decide +kernel⟩

end Draft

end FieldRules
