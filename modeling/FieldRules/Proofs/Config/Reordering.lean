import FieldRules.Proofs.Config.Acceptance

/-!
# The order of tags

Tags may be spread over several annotations of one field, in any order, and a scope may be opened
more than once. `Rearranges ts us` says that `us` has the tags of `ts` in another order, at any
depth, with scopes of one key split or merged. None of this changes what the tags without scopes are
led by (`Rearranges.leaves`) or which scopes are opened (`Rearranges.scopes`), so that trees take
the same tags either way and hold the same afterwards.
-/

namespace FieldRules

/-- The same tags in another order, with scopes of one key split or merged. -/
inductive Rearranges : List Tag → List Tag → Prop
  | perm {ts us} (h : ts.Perm us) : Rearranges ts us
  /-- The tags of a scope rearranged. -/
  | inside {k ts us rest} (h : Rearranges ts us) :
    Rearranges (.scope k ts :: rest) (.scope k us :: rest)
  /-- A scope split into two. -/
  | split {k ts us rest} :
    Rearranges (.scope k (ts ++ us) :: rest) (.scope k ts :: .scope k us :: rest)
  /-- Two scopes merged into one. -/
  | merge {k ts us rest} :
    Rearranges (.scope k ts :: .scope k us :: rest) (.scope k (ts ++ us) :: rest)
  | trans {ts us vs} (h : Rearranges ts us) (h' : Rearranges us vs) : Rearranges ts vs

namespace Tag

theorem leavesAll_eq_flatMap (ts : List Tag) : leavesAll ts = ts.flatMap leaves := by
  induction ts with
  | nil => rfl
  | cons t ts ih => rw [leavesAll_cons, ih, List.flatMap_cons]

theorem scopesAll_eq_flatMap (ts : List Tag) : scopesAll ts = ts.flatMap scopes := by
  induction ts with
  | nil => rfl
  | cons t ts ih => rw [scopesAll_cons, ih, List.flatMap_cons]

/-- Splitting a scope keeps the tags without scopes. -/
theorem leavesAll_split (k : Key) (ts us rest : List Tag) :
    leavesAll (scope k (ts ++ us) :: rest) = leavesAll (scope k ts :: scope k us :: rest) := by
  have happend : leavesAll (ts ++ us) = leavesAll ts ++ leavesAll us := by
    simp only [leavesAll_eq_flatMap, List.flatMap_append]
  simp only [leavesAll_cons, leaves_scope, happend, List.map_append, List.append_assoc]

/-- Splitting a scope opens no other scopes. -/
theorem mem_scopesAll_split {k : Key} {ts us rest : List Tag} {ks : List Key} :
    ks ∈ scopesAll (scope k (ts ++ us) :: rest) ↔
      ks ∈ scopesAll (scope k ts :: scope k us :: rest) := by
  have happend : scopesAll (ts ++ us) = scopesAll ts ++ scopesAll us := by
    simp only [scopesAll_eq_flatMap, List.flatMap_append]
  simp only [scopesAll_cons, scopes_scope, happend, List.map_cons, List.map_append, List.mem_append,
    List.mem_cons]
  grind

end Tag

namespace Rearranges

variable {ts us : List Tag}

/-- The tags without scopes stay the same. -/
theorem leaves (h : Rearranges ts us) : (Tag.leavesAll ts).Perm (Tag.leavesAll us) := by
  induction h with
  | perm h =>
    rw [Tag.leavesAll_eq_flatMap, Tag.leavesAll_eq_flatMap]
    exact h.flatMap_right Tag.leaves
  | inside h ih =>
    rw [Tag.leavesAll_cons, Tag.leavesAll_cons, Tag.leaves_scope, Tag.leaves_scope]
    exact (ih.map _).append_right _
  | split => rw [Tag.leavesAll_split]
  | merge => rw [Tag.leavesAll_split]
  | trans _ _ ih ih' => exact ih.trans ih'

/-- The scopes that are opened stay the same. -/
theorem scopes (h : Rearranges ts us) (ks : List Key) :
    ks ∈ Tag.scopesAll ts ↔ ks ∈ Tag.scopesAll us := by
  induction h generalizing ks with
  | perm h =>
    rw [Tag.scopesAll_eq_flatMap, Tag.scopesAll_eq_flatMap]
    exact (h.flatMap_right Tag.scopes).mem_iff
  | inside h ih =>
    simp only [Tag.scopesAll_cons, Tag.scopes_scope, List.mem_append, List.map_cons, List.mem_cons,
      List.mem_map, ih]
  | split => exact Tag.mem_scopesAll_split
  | merge => exact Tag.mem_scopesAll_split.symm
  | trans _ _ ih ih' => exact (ih ks).trans (ih' ks)

/-- Trees take rearranged tags if they take the tags. -/
theorem taken_iff (h : Rearranges ts us) (d : Draft) :
    (d.setTags ts).refusal = none ↔ (d.setTags us).refusal = none := by
  rw [Draft.setTags_taken_iff, Draft.setTags_taken_iff]
  exact ⟨fun ha => ha.congr h.leaves fun ks => (h.scopes ks).mpr,
    fun ha => ha.congr h.leaves.symm fun ks => (h.scopes ks).mp⟩

end Rearranges

namespace Draft

/-- **The order of tags and the splitting of scopes do not matter.** If a tree takes tags, it takes
them in any other order, at any depth and however scopes of one key are split or merged, and is the
same afterwards. If it refuses one of them, it refuses one of the rearranged tags as well. -/
theorem setTags_rearranges {ts us : List Tag} (h : Rearranges ts us) (d : Draft) :
    ((d.setTags ts).refusal = none →
      (d.setTags us).refusal = none ∧ (d.setTags us).draft = (d.setTags ts).draft) ∧
    ((d.setTags ts).refusal ≠ none → (d.setTags us).refusal ≠ none) := by
  refine ⟨fun htaken => ?_, fun hrefused htaken => hrefused ((h.taken_iff d).mpr htaken)⟩
  have htaken' := (h.taken_iff d).mp htaken
  obtain ⟨ws, hws, hos⟩ := stores_of_setTags ts d htaken
  obtain ⟨vs, hvs, hos'⟩ := stores_of_setTags us d htaken'
  refine ⟨htaken', hvs.unique hws ?_⟩
  rw [hos, hos']
  exact h.leaves.symm

/-- Texts by name, of which some may be missing. -/
def labelsDraft : Draft :=
  .map .none (.leaf .string) (.optional false false (.array .none (.leaf .string)))

/-- Tags that `labelsDraft` takes in two orders, and tags that it refuses in both, for two
reasons. -/
theorem setTags_rearranges_labels :
    let size : Tag := .simple .minItems (some "1")
    let name : Tag := .scope .item [.simple .minLen (some "2")]
    let present : Tag := .simple .notNull none
    let taken : List Tag := [.scope .value [present, name, size], size]
    let taken' : List Tag := [size, .scope .value [name], .scope .value [size, present]]
    let refused : List Tag := [size, size, .simple .func (some ".f")]
    let refused' : List Tag := [.simple .func (some ".f"), size, size]
    (Rearranges taken taken' ∧ (labelsDraft.setTags taken).refusal = none ∧
      (labelsDraft.setTags taken').refusal = none ∧
      (labelsDraft.setTags taken').draft = (labelsDraft.setTags taken).draft) ∧
    Rearranges refused refused' ∧
      (labelsDraft.setTags refused).refusal = some (.duplicateTag .minItems) ∧
      (labelsDraft.setTags refused').refusal ≠ none ∧
      (labelsDraft.setTags refused').refusal = some (.unrecognizedTag "func=.f" "map") := by
  intro size name present taken taken' refused refused'
  have htaken : (labelsDraft.setTags taken).refusal = none := rfl
  have hrefused : (labelsDraft.setTags refused).refusal = some (.duplicateTag .minItems) := rfl
  have hinside : Rearranges [present, name, size] ([name] ++ [size, present]) :=
    .perm (.trans (.swap name present [size]) (.cons name (.swap size present [])))
  have hfront : Rearranges [.scope .value [name], .scope .value [size, present], size] taken' :=
    .perm (.trans (.cons _ (.swap size _ [])) (.swap size _ _))
  have h : Rearranges taken taken' := (hinside.inside.trans .split).trans hfront
  have h' : Rearranges refused refused' :=
    .perm (.trans (.cons size (.swap _ size [])) (.swap _ size _))
  have hresult := (setTags_rearranges h labelsDraft).1 htaken
  have hrefused' := (setTags_rearranges h' labelsDraft).2 (hrefused ▸ Option.some_ne_none _)
  exact ⟨⟨h, htaken, hresult.1, hresult.2⟩, h', hrefused, hrefused', rfl⟩

end Draft

end FieldRules
