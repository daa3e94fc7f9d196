import FieldRules.Proofs.Emit.Variables

/-!
# Bindings in code

The loops and patterns in code bind names for their bodies. `Hygienic outer n n' ss` says that the
code `ss` binds names that are minted on the way from `n` to `n'`, each of them once, that a name
occurs in the body it is bound for and nowhere else, and that the only minted names from outside are
those of `outer`.

Hygiene is kept by putting code side by side, if the names of the second part are minted after those
of the first (`Hygienic.append`), and by a loop or pattern around it, if the names that are bound
there are minted before those of the body and occur in it (`Hygienic.wrap`).
-/

namespace FieldRules

/-! ## Parts of code -/

mutual

def Statement.parts : Statement → List Statement
  | .guard test failure => [.guard test failure]
  | .widen value body => .widen value body :: parts body
  | .measure value body => .measure value body :: parts body
  | .forEach item value body => .forEach item value body :: parts body
  | .forEntries key val value body => .forEntries key val value body :: parts body
  | .ifPresent inner value body => .ifPresent inner value body :: parts body
  | .matchPresent inner value body failure => .matchPresent inner value body failure :: parts body
  | .delegate value field => [.delegate value field]
  | .call call field => [.call call field]

def parts : List Statement → List Statement
  | [] => []
  | s :: ss => s.parts ++ parts ss

end

/-- The body of a loop, or of a pattern on an optional value. -/
def Statement.arm? : Statement → Option (List Statement)
  | forEach _ _ body => some body
  | forEntries _ _ _ body => some body
  | ifPresent _ _ body => some body
  | matchPresent _ _ body _ => some body
  | _ => none

/-- A name that is bound, and the code that it is bound for. -/
structure Binder where
  name : String
  body : List Statement

/-- The names that a loop or pattern binds. -/
def Statement.binds : Statement → List Binder
  | forEach item _ body => [⟨item, body⟩]
  | forEntries key val _ body => (key.toList ++ val.toList).map (⟨·, body⟩)
  | ifPresent inner _ body => [⟨inner, body⟩]
  | matchPresent inner _ body _ => [⟨inner, body⟩]
  | _ => []

/-- All names that code binds. -/
def binders (ss : List Statement) : List Binder := (parts ss).flatMap Statement.binds

theorem parts_append (ss us : List Statement) : parts (ss ++ us) = parts ss ++ parts us := by
  induction ss with
  | nil => rfl
  | cons s ss ih => rw [List.cons_append, parts, ih, parts, List.append_assoc]

theorem parts_singleton (s : Statement) : parts [s] = s.parts := by
  rw [parts]
  exact List.append_nil _

theorem mem_parts {t : Statement} {ss : List Statement} :
    t ∈ parts ss ↔ ∃ s ∈ ss, t ∈ s.parts := by
  induction ss with
  | nil =>
    refine ⟨fun h => (nomatch h), ?_⟩
    rintro ⟨s, hs, -⟩
    cases hs
  | cons s ss ih => simp only [parts, List.mem_append, ih, List.mem_cons, exists_eq_or_imp]

theorem binders_append (ss us : List Statement) :
    binders (ss ++ us) = binders ss ++ binders us := by
  rw [binders, parts_append, List.flatMap_append]
  rfl

theorem Statement.binds_of_arm?_none {s : Statement} (h : s.arm? = none) : s.binds = [] := by
  cases s <;> first | rfl | cases h

theorem Statement.parts_of_arm? {s : Statement} {body : List Statement} (h : s.arm? = some body) :
    s.parts = s :: FieldRules.parts body := by
  cases s <;> cases h <;> rfl

theorem binders_singleton {t : Statement} {ss : List Statement} (h : t.arm? = some ss) :
    binders [t] = t.binds ++ binders ss := by
  rw [binders, parts_singleton, Statement.parts_of_arm? h, List.flatMap_cons]
  rfl

theorem mem_minted_code {x : String} {ss : List Statement} :
    x ∈ minted (code ss) ↔ ∃ s ∈ ss, x ∈ minted s.tokens := by
  induction ss with
  | nil =>
    refine ⟨fun h => (nomatch h), ?_⟩
    rintro ⟨s, hs, -⟩
    cases hs
  | cons s ss ih =>
    simp only [minted_code_cons, List.mem_append, ih, List.mem_cons, exists_eq_or_imp]

/-! ## Hygiene -/

/-- Code that binds names on the way from `n` to `n'` and may use those of `outer`. -/
structure Hygienic (outer : List String) (n n' : Names) (ss : List Statement) : Prop where
  /-- Names are only minted. -/
  le : Names.Le n n'
  /-- The bound names are minted on the way. -/
  between : ∀ b ∈ binders ss, Names.Between n n' b.name
  /-- No name is bound twice. -/
  nodup : ((binders ss).map Binder.name).Nodup
  /-- Every minted name is bound in the code or comes from outside. -/
  known : ∀ x ∈ minted (code ss), x ∈ outer ∨ ∃ b ∈ binders ss, b.name = x
  /-- A bound name occurs where it is bound and in the body that it is bound for. -/
  once : ∀ b ∈ binders ss,
    (minted (code ss)).count b.name = 1 + (minted (code b.body)).count b.name
  /-- A bound name is used. -/
  used : ∀ b ∈ binders ss, b.name ∈ minted (code b.body)
  /-- No loop or pattern is empty. -/
  filled : ∀ t ∈ parts ss, ∀ body, t.arm? = some body → body ≠ []

/-- The names were minted before. -/
def Names.Before (n : Names) (xs : List String) : Prop := ∀ x ∈ xs, Between [] n x

theorem Names.nil_le (n : Names) : Le [] n := fun _ => Nat.zero_le _

theorem Names.Before.mono {n n' : Names} {xs : List String} (h : Before n xs) (hle : Le n n') :
    Before n' xs :=
  fun x hx => (h x hx).mono (Le.refl []) hle

theorem Names.Before.not_mem {n n' : Names} {xs : List String} {x : String} (h : Before n xs)
    (hx : Between n n' x) : x ∉ xs :=
  fun hm => (h x hm).ne (Le.refl n) hx rfl

namespace Hygienic

variable {outer : List String} {n n₁ n₂ : Names} {ss us : List Statement}

theorem nil (hle : Names.Le n n₁) : Hygienic outer n n₁ [] where
  le := hle
  between := fun _ hb => (nomatch hb)
  nodup := List.nodup_nil
  known := fun _ hx => (nomatch hx)
  once := fun _ hb => (nomatch hb)
  used := fun _ hb => (nomatch hb)
  filled := fun _ ht => (nomatch ht)

/-- Code without loops and patterns binds nothing. -/
theorem leaf (harm : ∀ t ∈ parts ss, t.arm? = none) (hm : ∀ x ∈ minted (code ss), x ∈ outer) :
    Hygienic outer n n ss := by
  have hnone : binders ss = [] := by
    refine List.flatMap_eq_nil_iff.mpr fun t ht => ?_
    exact Statement.binds_of_arm?_none (harm t ht)
  refine ⟨Names.Le.refl n, ?_, ?_, fun x hx => .inl (hm x hx), ?_, ?_, ?_⟩
  · rw [hnone]
    exact fun _ hb => (nomatch hb)
  · rw [hnone]
    exact List.nodup_nil
  · rw [hnone]
    exact fun _ hb => (nomatch hb)
  · rw [hnone]
    exact fun _ hb => (nomatch hb)
  · intro t ht body hb
    rw [harm t ht] at hb
    cases hb

theorem weaken {outer' : List String} (h : Hygienic outer n n₁ ss) (ho : outer ⊆ outer') :
    Hygienic outer' n n₁ ss :=
  { h with known := fun x hx => (h.known x hx).imp_left fun hx => ho hx }

/-- Names may have been minted before the code's own. -/
theorem mono {n₀ : Names} (h : Hygienic outer n n₁ ss) (hle : Names.Le n₀ n) :
    Hygienic outer n₀ n₁ ss :=
  { h with
    le := hle.trans h.le
    between := fun b hb => (h.between b hb).mono hle (Names.Le.refl _) }

theorem count_eq_zero (h : Hygienic outer n n₁ ss) {x : String} (ho : x ∉ outer)
    (hb : ∀ b ∈ binders ss, b.name ≠ x) : (minted (code ss)).count x = 0 := by
  refine List.count_eq_zero.mpr fun hx => ?_
  rcases h.known x hx with hx | ⟨b, hm, rfl⟩
  · exact ho hx
  · exact hb b hm rfl

/-- Code side by side. -/
theorem append (h : Hygienic outer n n₁ ss) (h' : Hygienic outer n₁ n₂ us)
    (ho : Names.Before n outer) : Hygienic outer n n₂ (ss ++ us) := by
  have hne : ∀ b ∈ binders ss, ∀ d ∈ binders us, b.name ≠ d.name := fun b hb d hd =>
    (h.between b hb).ne (Names.Le.refl n₁) (h'.between d hd)
  refine ⟨h.le.trans h'.le, ?_, ?_, ?_, ?_, ?_, ?_⟩
  · intro b hb
    rw [binders_append, List.mem_append] at hb
    rcases hb with hb | hb
    · exact (h.between b hb).mono (Names.Le.refl n) h'.le
    · exact (h'.between b hb).mono h.le (Names.Le.refl n₂)
  · rw [binders_append, List.map_append, List.nodup_append]
    refine ⟨h.nodup, h'.nodup, ?_⟩
    intro x hx y hy
    obtain ⟨b, hb, rfl⟩ := List.mem_map.mp hx
    obtain ⟨d, hd, rfl⟩ := List.mem_map.mp hy
    exact hne b hb d hd
  · intro x hx
    rw [minted_code_append, List.mem_append] at hx
    rw [binders_append]
    rcases hx with hx | hx
    · refine (h.known x hx).imp_right ?_
      rintro ⟨b, hb, rfl⟩
      exact ⟨b, List.mem_append_left _ hb, rfl⟩
    · refine (h'.known x hx).imp_right ?_
      rintro ⟨b, hb, rfl⟩
      exact ⟨b, List.mem_append_right _ hb, rfl⟩
  · intro b hb
    rw [binders_append, List.mem_append] at hb
    rw [minted_code_append, List.count_append]
    rcases hb with hb | hb
    · have hzero : (minted (code us)).count b.name = 0 :=
        h'.count_eq_zero (ho.not_mem (h.between b hb)) fun d hd => (hne b hb d hd).symm
      rw [hzero, h.once b hb]
      omega
    · have hzero : (minted (code ss)).count b.name = 0 :=
        h.count_eq_zero ((ho.mono h.le).not_mem (h'.between b hb)) fun d hd => hne d hd b hb
      rw [hzero, h'.once b hb]
      omega
  · intro b hb
    rw [binders_append, List.mem_append] at hb
    rcases hb with hb | hb
    · exact h.used b hb
    · exact h'.used b hb
  · intro t ht
    rw [parts_append, List.mem_append] at ht
    rcases ht with ht | ht
    · exact h.filled t ht
    · exact h'.filled t ht

theorem mem_of_count {x : String} {all bound inner : List String}
    (h : all.count x = bound.count x + outer.count x + inner.count x) (hx : x ∈ all) :
    x ∈ bound ∨ x ∈ outer ∨ x ∈ inner := by
  have hpos : 0 < all.count x := List.count_pos_iff.mpr hx
  simp only [← List.count_pos_iff]
  omega

/-- A loop or pattern that binds `xs` for its body. -/
theorem wrap {t : Statement} {xs : List String} (harm : t.arm? = some ss)
    (hbinds : t.binds = xs.map (⟨·, ss⟩))
    (hcount : ∀ x, (minted t.tokens).count x =
      xs.count x + outer.count x + (minted (code ss)).count x)
    (hxs : xs.Nodup) (hbetween : ∀ x ∈ xs, Names.Between n n₁ x) (hle : Names.Le n n₁)
    (ho : Names.Before n outer) (hused : ∀ x ∈ xs, x ∈ minted (code ss)) (hne : ss ≠ [])
    (h : Hygienic xs n₁ n₂ ss) : Hygienic outer n n₂ [t] := by
  have hbinders : binders [t] = t.binds ++ binders ss := binders_singleton harm
  have hnames : (binders [t]).map Binder.name = xs ++ (binders ss).map Binder.name := by
    rw [hbinders, hbinds, List.map_append, List.map_map]
    congr 1
    exact List.map_id xs
  have hdisj : ∀ x ∈ xs, ∀ b ∈ binders ss, x ≠ b.name := fun x hx b hb =>
    (hbetween x hx).ne (Names.Le.refl n₁) (h.between b hb)
  have hmem : ∀ b ∈ binders [t], (b.name ∈ xs ∧ b.body = ss) ∨ b ∈ binders ss := by
    intro b hb
    rw [hbinders, hbinds, List.mem_append, List.mem_map] at hb
    rcases hb with ⟨x, hx, rfl⟩ | hb
    · exact .inl ⟨hx, rfl⟩
    · exact .inr hb
  refine ⟨hle.trans h.le, ?_, ?_, ?_, ?_, ?_, ?_⟩
  · intro b hb
    rcases hmem b hb with ⟨hx, -⟩ | hb
    · exact (hbetween _ hx).mono (Names.Le.refl n) h.le
    · exact (h.between b hb).mono hle (Names.Le.refl n₂)
  · rw [hnames, List.nodup_append]
    refine ⟨hxs, h.nodup, ?_⟩
    intro x hx y hy
    obtain ⟨b, hb, rfl⟩ := List.mem_map.mp hy
    exact hdisj x hx b hb
  · intro x hx
    rw [minted_code_singleton] at hx
    have hbound : x ∈ (binders [t]).map Binder.name ↔
        x ∈ xs ∨ x ∈ (binders ss).map Binder.name := by
      rw [hnames, List.mem_append]
    rw [← List.mem_map, hbound]
    rcases mem_of_count (hcount x) hx with hx | hx | hx
    · exact .inr (.inl hx)
    · exact .inl hx
    · rcases h.known x hx with hx | hx
      · exact .inr (.inl hx)
      · exact .inr (.inr (List.mem_map.mpr hx))
  · intro b hb
    rw [minted_code_singleton, hcount]
    rcases hmem b hb with ⟨hx, hbody⟩ | hb
    · have hone : xs.count b.name = 1 := by rw [hxs.count, if_pos hx]
      have hzero : outer.count b.name = 0 :=
        List.count_eq_zero.mpr (ho.not_mem (hbetween _ hx))
      rw [hone, hzero, hbody]
    · have hzero : xs.count b.name = 0 :=
        List.count_eq_zero.mpr fun hx => hdisj _ hx b hb rfl
      have hzero' : outer.count b.name = 0 :=
        List.count_eq_zero.mpr ((ho.mono hle).not_mem (h.between b hb))
      rw [hzero, hzero', h.once b hb]
      omega
  · intro b hb
    rcases hmem b hb with ⟨hx, hbody⟩ | hb
    · rw [hbody]
      exact hused _ hx
    · exact h.used b hb
  · intro u hu body hbody
    rw [parts_singleton, Statement.parts_of_arm? harm, List.mem_cons] at hu
    rcases hu with rfl | hu
    · rw [harm] at hbody
      cases hbody
      exact hne
    · exact h.filled u hu body hbody

end Hygienic

end FieldRules
