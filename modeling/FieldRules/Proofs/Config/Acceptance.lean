import FieldRules.Proofs.Config.Delivery

/-!
# Tags that a tree takes

Whether a tree takes a list of tags, said without applying them. Tags are applied one after the
other, and whether one is taken depends on what is stored already. But all that matters is in the
tree before any of them: the tags are `Acceptable` if each tag without a scope has the shape of its
key and is led to an empty slot, no two of them to the same one, and every scope is about a part of
the tree. `Draft.setTags_taken_iff` says that exactly such tags are taken.

Tags that are acceptable beside others are acceptable after these are stored
(`Acceptable.append_iff`), and acceptable tags for a part are acceptable for the node when they are
handed inward or put in a scope (`Acceptable.through`).
-/

namespace FieldRules

open Draft (inward? part?)

/-! ## Scopes of tags -/

namespace Tag

/-- The scopes in a tag: the key of each, after those of the scopes around it. -/
def scopes (t : Tag) : List (List Key) :=
  (t.occurrences.filter (!·.tag.isSimple)).map Occurrence.keys

/-- The scopes in the tags of a list. -/
def scopesAll (ts : List Tag) : List (List Key) :=
  ((occurrencesAll ts).filter (!·.tag.isSimple)).map Occurrence.keys

theorem scopes_scope (k : Key) (ts : List Tag) :
    (scope k ts).scopes = ([] :: scopesAll ts).map (k :: ·) := by
  rw [scopes, scopesAll, occurrences, List.filter_cons_of_pos (by rfl), List.filter_map,
    List.map_cons, List.map_cons, List.map_map, List.map_map]
  rfl

theorem scopesAll_cons (t : Tag) (ts : List Tag) :
    scopesAll (t :: ts) = t.scopes ++ scopesAll ts := by
  rw [scopesAll, occurrencesAll, List.filter_append, List.map_append]
  rfl

end Tag

/-! ## Routes through a step -/

namespace Routed

variable {k : Key} {ks : List Key} {d e : Draft} {st : Step} {path : List Step}

theorem inward_iff (h : inward? k d = some (st, e)) :
    Routed (k :: ks) d path ↔ ∃ rest, path = st :: rest ∧ Routed (k :: ks) e rest := by
  constructor
  · intro hr
    cases hr with
    | stays hn => rw [h] at hn; cases hn
    | inward hi hr =>
      rw [h] at hi
      cases hi
      exact ⟨_, rfl, hr⟩
    | scope hn => rw [h] at hn; cases hn
  · rintro ⟨rest, rfl, hr⟩
    exact .inward h hr

theorem scope_iff (h : inward? k d = none) (hp : part? k d = some (st, e)) (hks : ks ≠ []) :
    Routed (k :: ks) d path ↔ ∃ rest, path = st :: rest ∧ Routed ks e rest := by
  constructor
  · intro hr
    cases hr with
    | stays => exact absurd rfl hks
    | inward hi => rw [h] at hi; cases hi
    | scope _ hp' hr =>
      rw [hp] at hp'
      cases hp'
      exact ⟨_, rfl, hr⟩
  · rintro ⟨rest, rfl, hr⟩
    exact .scope h hp hr

/-- A key alone leads to a node. -/
theorem exists_single (k : Key) (d : Draft) : ∃ path, Routed [k] d path := by
  induction d using Draft.inward_induct k with
  | keeps d h => exact ⟨[], .stays h⟩
  | hands d st e h ih =>
    obtain ⟨path, hr⟩ := ih
    exact ⟨st :: path, .inward h hr⟩

end Routed

/-- The scope is about a part of the tree, so that keys in it lead on. -/
def Opens (ks : List Key) (d : Draft) : Prop := ∃ k path, Routed (ks ++ [k]) d path

namespace Opens

variable {k : Key} {ks : List Key} {d d' e : Draft} {st : Step}

theorem nil (d : Draft) : Opens [] d := ⟨.func, Routed.exists_single .func d⟩

theorem of_bare_eq (h : Opens ks d) (hb : d.bare = d'.bare) : Opens ks d' := by
  obtain ⟨k, path, hr⟩ := h
  exact ⟨k, path, hr.of_bare_eq hb⟩

theorem inward_iff (h : inward? k d = some (st, e)) : Opens (k :: ks) d ↔ Opens (k :: ks) e := by
  constructor
  · rintro ⟨l, path, hr⟩
    obtain ⟨rest, -, hr⟩ := (Routed.inward_iff h).mp hr
    exact ⟨l, rest, hr⟩
  · rintro ⟨l, rest, hr⟩
    exact ⟨l, st :: rest, (Routed.inward_iff h).mpr ⟨rest, rfl, hr⟩⟩

theorem scope_iff (h : inward? k d = none) (hp : part? k d = some (st, e)) :
    Opens (k :: ks) d ↔ Opens ks e := by
  have hne : ∀ l : Key, ks ++ [l] ≠ [] := fun l => List.append_ne_nil_of_right_ne_nil ks (by simp)
  constructor
  · rintro ⟨l, path, hr⟩
    obtain ⟨rest, -, hr⟩ := (Routed.scope_iff h hp (hne l)).mp hr
    exact ⟨l, rest, hr⟩
  · rintro ⟨l, rest, hr⟩
    exact ⟨l, st :: rest, (Routed.scope_iff h hp (hne l)).mpr ⟨rest, rfl, hr⟩⟩

/-- A scope that the node keeps is about one of its parts. -/
theorem part (h : inward? k d = none) (ho : Opens (k :: ks) d) :
    ∃ st e, part? k d = some (st, e) := by
  obtain ⟨l, path, hr⟩ := ho
  generalize hkeys : k :: ks ++ [l] = keys at hr
  cases hr with
  | stays => simp at hkeys
  | inward hi =>
    cases hkeys
    rw [h] at hi
    cases hi
  | scope _ hp =>
    cases hkeys
    exact ⟨_, _, hp⟩

end Opens

/-! ## Acceptable tags -/

/-- Two tags are not led to one slot. -/
def Apart (d : Draft) (o o' : Occurrence) : Prop :=
  ∀ path, Routed o.keys d path → Routed o'.keys d path → o.tag.key ≠ o'.tag.key

theorem Apart.symm {d : Draft} {o o' : Occurrence} (h : Apart d o o') : Apart d o' o :=
  fun path hr hr' => (h path hr' hr).symm

/-- The tree has an empty slot for each of the tags without scopes, and a part for each scope. -/
structure Acceptable (d : Draft) (leaves : List Occurrence) (scopes : List (List Key)) : Prop where
  /-- Every tag has the shape that its key needs. -/
  fits : ∀ o ∈ leaves, o.tag.Fits
  /-- Every tag is led to an empty slot. -/
  vacant : ∀ o ∈ leaves, ∃ path, Routed o.keys d path ∧ d.look path o.tag.key = some none
  /-- No two tags are led to one slot. -/
  apart : leaves.Pairwise (Apart d)
  /-- Every scope is about a part of the tree. -/
  opens : ∀ ks ∈ scopes, Opens ks d

namespace Acceptable

variable {d d' e : Draft} {ls ls' : List Occurrence} {ss ss' : List (List Key)}

theorem nil (d : Draft) : Acceptable d [] [] where
  fits := fun _ ho => (nomatch ho)
  vacant := fun _ ho => (nomatch ho)
  apart := .nil
  opens := fun _ hks => (nomatch hks)

/-- Neither the order of the tags nor that of the scopes matters, nor how often a scope is
opened. -/
theorem congr (h : Acceptable d ls ss) (hls : ls.Perm ls') (hss : ∀ ks ∈ ss', ks ∈ ss) :
    Acceptable d ls' ss' where
  fits := fun o ho => h.fits o (hls.mem_iff.mpr ho)
  vacant := fun o ho => h.vacant o (hls.mem_iff.mpr ho)
  apart := (hls.pairwise_iff Apart.symm).mp h.apart
  opens := fun ks hks => h.opens ks (hss ks hks)

theorem left (h : Acceptable d (ls ++ ls') (ss ++ ss')) : Acceptable d ls ss where
  fits := fun o ho => h.fits o (List.mem_append_left _ ho)
  vacant := fun o ho => h.vacant o (List.mem_append_left _ ho)
  apart := (List.pairwise_append.mp h.apart).1
  opens := fun ks hks => h.opens ks (List.mem_append_left _ hks)

/-- Tags beside others that are acceptable: they are acceptable once the others are stored. -/
theorem append_iff {ws : List Write} (h : Stores d d' ws) (hls : ws.map Write.toOccurrence = ls)
    (hself : Acceptable d ls ss) :
    Acceptable d (ls ++ ls') (ss ++ ss') ↔ Acceptable d' ls' ss' := by
  have hroute : ∀ {ks path}, Routed ks d path ↔ Routed ks d' path :=
    ⟨fun hr => hr.of_bare_eq h.bare.symm, fun hr => hr.of_bare_eq h.bare⟩
  have hplace : ∀ {path k}, (path, k) ∈ ws.map Write.place ↔
      ∃ o ∈ ls, Routed o.keys d path ∧ o.tag.key = k := by
    intro path k
    subst hls
    constructor
    · intro hmem
      obtain ⟨w, hw, hplace⟩ := List.mem_map.mp hmem
      cases hplace
      exact ⟨_, List.mem_map_of_mem hw, h.routed w hw, rfl⟩
    · rintro ⟨o, ho, hr, rfl⟩
      obtain ⟨w, hw, rfl⟩ := List.mem_map.mp ho
      rw [hr.unique (h.routed w hw)]
      exact List.mem_map_of_mem hw
  constructor
  · intro hall
    obtain ⟨-, hapart, hacross⟩ := List.pairwise_append.mp hall.apart
    refine ⟨fun o ho => hall.fits o (List.mem_append_right _ ho), fun o ho => ?_, ?_, ?_⟩
    · obtain ⟨path, hr, hempty⟩ := hall.vacant o (List.mem_append_right _ ho)
      refine ⟨path, hroute.mp hr, ?_⟩
      rw [h.frame _ _ fun hmem => ?_, hempty]
      obtain ⟨o', ho', hr', hkey⟩ := hplace.mp hmem
      exact hacross o' ho' o ho path hr' hr hkey
    · exact hapart.imp fun hap path hr hr' => hap path (hroute.mpr hr) (hroute.mpr hr')
    · exact fun ks hks => (hall.opens ks (List.mem_append_right _ hks)).of_bare_eq h.bare.symm
  · intro hrest
    have hfree : ∀ o ∈ ls', ∃ path, Routed o.keys d path ∧
        (path, o.tag.key) ∉ ws.map Write.place ∧ d.look path o.tag.key = some none := by
      intro o ho
      obtain ⟨path, hr, hempty⟩ := hrest.vacant o ho
      have hnot := h.not_mem_place hempty
      exact ⟨path, hroute.mpr hr, hnot, h.frame _ _ hnot ▸ hempty⟩
    refine ⟨fun o ho => ?_, fun o ho => ?_, ?_, fun ks hks => ?_⟩
    · exact (List.mem_append.mp ho).elim (hself.fits o) (hrest.fits o)
    · rcases List.mem_append.mp ho with ho | ho
      · exact hself.vacant o ho
      · obtain ⟨path, hr, -, hempty⟩ := hfree o ho
        exact ⟨path, hr, hempty⟩
    · refine List.pairwise_append.mpr ⟨hself.apart, ?_, ?_⟩
      · exact hrest.apart.imp fun hap path hr hr' => hap path (hroute.mp hr) (hroute.mp hr')
      · intro o ho o' ho' path hr hr' hkey
        obtain ⟨path', hr'', hnot, -⟩ := hfree o' ho'
        rw [hr'.unique hr''] at hr
        exact hnot (hplace.mpr ⟨o, ho, hr, hkey⟩)
    · rcases List.mem_append.mp hks with hks | hks
      · exact hself.opens ks hks
      · exact (hrest.opens ks hks).of_bare_eq h.bare

/-- Tags for a part, seen from the node. `f` and `g` say how their keys lead to the part. -/
theorem through {st : Step} (hchild : d.child? st = some e) (f : Occurrence → Occurrence)
    (g : List Key → List Key) (htag : ∀ o, (f o).tag = o.tag)
    (hroute : ∀ o ∈ ls, ∀ path,
      Routed (f o).keys d path ↔ ∃ rest, path = st :: rest ∧ Routed o.keys e rest)
    (hopens : ∀ ks ∈ ss, Opens (g ks) d ↔ Opens ks e) :
    Acceptable d (ls.map f) (ss.map g) ↔ Acceptable e ls ss := by
  have hlook : ∀ rest k, d.look (st :: rest) k = e.look rest k := by
    intro rest k
    rw [Draft.look_cons, hchild]
    rfl
  have hvacant : ∀ o ∈ ls,
      (∃ path, Routed (f o).keys d path ∧ d.look path (f o).tag.key = some none) ↔
        ∃ rest, Routed o.keys e rest ∧ e.look rest o.tag.key = some none := by
    intro o ho
    constructor
    · rintro ⟨path, hr, hempty⟩
      obtain ⟨rest, rfl, hrest⟩ := (hroute o ho path).mp hr
      rw [htag, hlook] at hempty
      exact ⟨rest, hrest, hempty⟩
    · rintro ⟨rest, hr, hempty⟩
      refine ⟨st :: rest, (hroute o ho _).mpr ⟨rest, rfl, hr⟩, ?_⟩
      rw [htag, hlook]
      exact hempty
  have hapart : ∀ o ∈ ls, ∀ o' ∈ ls, Apart d (f o) (f o') ↔ Apart e o o' := by
    intro o ho o' ho'
    unfold Apart
    rw [htag, htag]
    constructor
    · intro h rest hr hr'
      exact h (st :: rest) ((hroute o ho _).mpr ⟨rest, rfl, hr⟩)
        ((hroute o' ho' _).mpr ⟨rest, rfl, hr'⟩)
    · intro h path hr hr'
      obtain ⟨rest, rfl, hrest⟩ := (hroute o ho path).mp hr
      obtain ⟨rest', heq, hrest'⟩ := (hroute o' ho' _).mp hr'
      cases heq
      exact h rest hrest hrest'
  have hpairwise : (ls.map f).Pairwise (Apart d) ↔ ls.Pairwise (Apart e) := by
    rw [List.pairwise_map]
    exact List.Pairwise.iff_of_mem fun ho ho' => hapart _ ho _ ho'
  constructor
  · intro h
    refine ⟨fun o ho => ?_, fun o ho => ?_, hpairwise.mp h.apart, fun ks hks => ?_⟩
    · exact htag o ▸ h.fits (f o) (List.mem_map_of_mem ho)
    · exact (hvacant o ho).mp (h.vacant (f o) (List.mem_map_of_mem ho))
    · exact (hopens ks hks).mp (h.opens (g ks) (List.mem_map_of_mem hks))
  · intro h
    refine ⟨fun u hu => ?_, fun u hu => ?_, hpairwise.mpr h.apart, fun us hus => ?_⟩
    · obtain ⟨o, ho, rfl⟩ := List.mem_map.mp hu
      exact (htag o).symm ▸ h.fits o ho
    · obtain ⟨o, ho, rfl⟩ := List.mem_map.mp hu
      exact (hvacant o ho).mpr (h.vacant o ho)
    · obtain ⟨ks, hks, rfl⟩ := List.mem_map.mp hus
      exact (hopens ks hks).mpr (h.opens ks hks)

end Acceptable

/-! ## Tags that are taken -/

namespace Draft

open Configured

variable {t : Tag} {enter : Draft → Configured} {d e : Draft} {st : Step}

/-- Tags that a node hands to a part, all with the key `t.key`. -/
theorem acceptable_inward {ls : List Occurrence} {ss : List (List Key)}
    (hin : inward? t.key d = some (st, e)) (hls : ∀ o ∈ ls, ∃ ks, o.keys = t.key :: ks)
    (hss : ∀ ks ∈ ss, ∃ ks', ks = t.key :: ks') : Acceptable d ls ss ↔ Acceptable e ls ss := by
  have hroute : ∀ o ∈ ls, ∀ path,
      Routed (id o).keys d path ↔ ∃ rest, path = st :: rest ∧ Routed o.keys e rest := by
    intro o ho path
    obtain ⟨ks, hks⟩ := hls o ho
    rw [id, hks]
    exact Routed.inward_iff hin
  have hopens : ∀ ks ∈ ss, Opens (id ks) d ↔ Opens ks e := by
    intro ks hks
    obtain ⟨ks', rfl⟩ := hss ks hks
    exact Opens.inward_iff hin
  have h := Acceptable.through (child?_of_inward? hin).1 id id (fun _ => rfl) hroute hopens
  rwa [List.map_id, List.map_id] at h

/-- A tag that enters no part is taken if it is acceptable. -/
theorem receive_leaf_taken_iff (henter : ∀ e, (enter e).refusal ≠ none) :
    (d.receive t enter).refusal = none ↔ Acceptable d [⟨[], t⟩] [] := by
  induction d using inward_induct t.key with
  | keeps d hin =>
    have hpath : ∀ {path}, Routed [t.key] d path → path = [] := fun hr =>
      hr.unique (.stays hin)
    cases hslot : d.slot? t.key with
    | some held =>
      have hkept := kept_receive enter hin hslot
      constructor
      · intro h
        obtain ⟨-, hfits, hstores⟩ := hkept.stored h
        refine ⟨fun o ho => ?_, fun o ho => ?_, List.pairwise_singleton _ _,
          fun _ hks => (nomatch hks)⟩
        · cases List.mem_singleton.mp ho
          exact hfits
        · cases List.mem_singleton.mp ho
          exact ⟨[], .stays hin, hstores.empty _ List.mem_cons_self⟩
      · intro h
        obtain ⟨path, hr, hempty⟩ := h.vacant _ List.mem_cons_self
        rw [hpath hr] at hempty
        refine Option.eq_none_iff_forall_ne_some.mpr fun err herr => ?_
        obtain ⟨⟨u, rfl⟩, -⟩ := hkept.duplicate err herr (h.fits _ List.mem_cons_self)
        cases hslot.symm.trans hempty
    | none =>
      have hnot : ¬ Acceptable d [⟨[], t⟩] [] := by
        intro h
        obtain ⟨path, hr, hempty⟩ := h.vacant _ List.mem_cons_self
        rw [hpath hr] at hempty
        cases hslot.symm.trans hempty
      refine iff_of_false (fun h => ?_) hnot
      cases hpart : part? t.key d with
      | some p =>
        rw [(receive_part enter hpart).2] at h
        exact henter _ h
      | none =>
        rw [(receive_unrecognized enter hin hslot hpart).2] at h
        cases h
  | hands d st e hin ih =>
    have hkeys : ∀ o ∈ [Occurrence.mk [] t], ∃ ks, o.keys = t.key :: ks := by
      intro o ho
      cases List.mem_singleton.mp ho
      exact ⟨[], rfl⟩
    rw [(receive_inward enter hin).2, ih]
    exact (acceptable_inward hin hkeys fun ks hks => absurd hks List.not_mem_nil).symm

/-- A tag with a scope is taken if the scope is about a part that takes the tags in it. -/
theorem receive_scope_taken_iff {ls : List Occurrence} {ss : List (List Key)}
    (hscope : t.isSimple = false) (henter : ∀ e, (enter e).refusal = none ↔ Acceptable e ls ss)
    (hls : ∀ o ∈ ls, o.keys ≠ []) :
    (d.receive t enter).refusal = none ↔
      Acceptable d (ls.map (Occurrence.under t.key)) (([] :: ss).map (t.key :: ·)) := by
  induction d using inward_induct t.key with
  | keeps d hin =>
    cases hpart : part? t.key d with
    | some p =>
      obtain ⟨st, e⟩ := p
      have hnil : Acceptable e ls ([] :: ss) ↔ Acceptable e ls ss := by
        refine ⟨fun h => h.congr (.refl ls) fun ks hks => List.mem_cons_of_mem _ hks, fun h => ?_⟩
        refine { h with opens := fun ks hks => ?_ }
        rcases List.mem_cons.mp hks with rfl | hks
        · exact .nil e
        · exact h.opens ks hks
      rw [(receive_part enter hpart).2, henter, ← hnil]
      have hroute : ∀ o ∈ ls, ∀ path, Routed (o.under t.key).keys d path ↔
          ∃ rest, path = st :: rest ∧ Routed o.keys e rest := fun o ho _ =>
        Routed.scope_iff hin hpart (hls o ho)
      have hopens : ∀ ks ∈ [] :: ss, Opens (t.key :: ks) d ↔ Opens ks e := fun _ _ =>
        Opens.scope_iff hin hpart
      exact (Acceptable.through (child?_of_part? hpart).1 (Occurrence.under t.key) (t.key :: ·)
        (fun _ => rfl) hroute hopens).symm
    | none =>
      have hnot : ¬ Acceptable d (ls.map (Occurrence.under t.key))
          (([] :: ss).map (t.key :: ·)) := by
        intro h
        obtain ⟨st, e, hp⟩ := (h.opens _ List.mem_cons_self).part hin
        cases hpart.symm.trans hp
      refine iff_of_false (fun h => ?_) hnot
      cases hslot : d.slot? t.key with
      | some held =>
        have hsimple := ((kept_receive enter hin hslot).stored h).1
        rw [hscope] at hsimple
        cases hsimple
      | none =>
        rw [(receive_unrecognized enter hin hslot hpart).2] at h
        cases h
  | hands d st e hin ih =>
    rw [(receive_inward enter hin).2, ih]
    refine (acceptable_inward hin (fun u hu => ?_) fun ks hks => ?_).symm
    · obtain ⟨o, -, rfl⟩ := List.mem_map.mp hu
      exact ⟨o.keys, o.keys_under t.key⟩
    · obtain ⟨ks', -, rfl⟩ := List.mem_map.mp hks
      exact ⟨ks', rfl⟩

/-- A scope's tags are applied as those of a list. -/
theorem setScope_eq (k : Key) (d : Draft) (ts : List Tag) :
    setScope k d ts = (setTags d ts).within k := by
  induction ts generalizing d with
  | nil => rw [setScope, setTags]; rfl
  | cons t ts ih =>
    rw [setScope, setTags]
    unfold andThen
    cases h : (d.setTag t).refusal with
    | some e => simp [within, h]
    | none => simp [within, h, ih]

theorem setScope_taken_iff (k : Key) (d : Draft) (ts : List Tag) :
    (setScope k d ts).refusal = none ↔ (setTags d ts).refusal = none := by
  rw [setScope_eq]
  exact Option.map_eq_none_iff

theorem refusal_andThen {c : Configured} (h : c.refusal = none) (next : Draft → Configured) :
    (c.andThen next).refusal = (next c.draft).refusal := by
  rw [andThen, h]

/-- Tags that are taken are stored with all tags in them. -/
theorem stores_of_setTags (ts : List Tag) (d : Draft) (h : (d.setTags ts).refusal = none) :
    ∃ ws, Stores d (d.setTags ts).draft ws ∧ ws.map Write.toOccurrence = Tag.leavesAll ts := by
  have hscope := (stores_of_setScope .item ts d ((setScope_taken_iff .item d ts).mpr h)).2
  rwa [setScope_eq] at hscope

theorem keys_leavesAll {ts : List Tag} : ∀ o ∈ Tag.leavesAll ts, o.keys ≠ [] :=
  fun o _ => List.append_ne_nil_of_right_ne_nil o.scopes (List.cons_ne_nil _ _)

mutual

/-- A tag is taken if it is acceptable. -/
theorem setTag_taken_iff (t : Tag) (d : Draft) :
    (d.setTag t).refusal = none ↔ Acceptable d t.leaves t.scopes := by
  match t with
  | .simple k p =>
    rw [setTag]
    exact receive_leaf_taken_iff fun _ => Option.some_ne_none _
  | .scope k ts =>
    rw [setTag, Tag.leaves_scope, Tag.scopes_scope]
    refine receive_scope_taken_iff rfl (fun e => ?_) keys_leavesAll
    exact (setScope_taken_iff k e ts).trans (setTags_taken_iff ts e)

/-- **A tree takes exactly the acceptable tags.** -/
theorem setTags_taken_iff (ts : List Tag) (d : Draft) :
    (d.setTags ts).refusal = none ↔ Acceptable d (Tag.leavesAll ts) (Tag.scopesAll ts) := by
  match ts with
  | [] => exact iff_of_true (by rw [setTags]; rfl) (.nil d)
  | t :: ts =>
    rw [setTags, Tag.leavesAll_cons, Tag.scopesAll_cons]
    constructor
    · intro h
      obtain ⟨hfirst, hrest, -⟩ := of_andThen_none h
      obtain ⟨-, ws, hws, hos⟩ := stores_of_setTag t d hfirst
      exact (Acceptable.append_iff hws hos ((setTag_taken_iff t d).mp hfirst)).mpr
        ((setTags_taken_iff ts _).mp hrest)
    · intro h
      have hfirst := (setTag_taken_iff t d).mpr h.left
      obtain ⟨-, ws, hws, hos⟩ := stores_of_setTag t d hfirst
      rw [refusal_andThen hfirst]
      exact (setTags_taken_iff ts _).mpr ((Acceptable.append_iff hws hos h.left).mp h)

end

end Draft

/-- Trees in which the same tags are stored are the same. -/
theorem Stores.unique {d d₁ d₂ : Draft} {ws vs : List Write} (h : Stores d d₁ ws)
    (h' : Stores d d₂ vs) (hos : (ws.map Write.toOccurrence).Perm (vs.map Write.toOccurrence)) :
    d₁ = d₂ := by
  -- Routes are unique, so that a tag is stored at the same place in both.
  have hsame : ∀ w ∈ ws, ∃ v ∈ vs, v.path = w.path ∧ v.tag = w.tag := by
    intro w hw
    obtain ⟨v, hv, hocc⟩ := List.mem_map.mp (hos.mem_iff.mp (List.mem_map_of_mem hw))
    have hroute := h'.routed v hv
    rw [hocc] at hroute
    exact ⟨v, hv, hroute.unique (h.routed w hw), congrArg Occurrence.tag hocc⟩
  have hback : ∀ v ∈ vs, ∃ w ∈ ws, w.place = v.place := by
    intro v hv
    obtain ⟨w, hw, hocc⟩ := List.mem_map.mp (hos.mem_iff.mpr (List.mem_map_of_mem hv))
    have hroute := h.routed w hw
    rw [hocc] at hroute
    refine ⟨w, hw, ?_⟩
    rw [Write.place, Write.place, hroute.unique (h'.routed v hv), hocc]
  refine Draft.eq_of_look (h.bare.trans h'.bare.symm) fun path k => ?_
  by_cases hmem : (path, k) ∈ ws.map Write.place
  · obtain ⟨w, hw, hplace⟩ := List.mem_map.mp hmem
    cases hplace
    obtain ⟨v, hv, hpath, htag⟩ := hsame w hw
    rw [h.stored w hw, ← hpath, ← htag, h'.stored v hv]
  · rw [h.frame path k hmem, h'.frame path k fun hmem' => hmem ?_]
    obtain ⟨v, hv, hplace⟩ := List.mem_map.mp hmem'
    obtain ⟨w, hw, hwv⟩ := hback v hv
    exact hplace ▸ hwv ▸ List.mem_map_of_mem hw

end FieldRules
