import FieldRules.Proofs.Config.Freezing

/-!
# What freezing inspects

Freezing a tree is a series of single checks. `Draft.inspections` lists them, each taken by itself,
with the fields and scopes that stand around it and in the order in which they count. A tree freezes
exactly if none of them complains, and then its plan has the shape of the tree and the values of its
slots (`Draft.Frozen`). Otherwise the error is the first complaint inside the fields and scopes on
the way to it (`Draft.freeze_inspects`).
-/

namespace FieldRules

/-! ## Errors and what stands around them -/

/-- A field or a scope that stands around an error. -/
inductive Enclosure where
  | scope (k : Key)
  | field (name : String)
deriving DecidableEq, Repr

namespace ConfigError

/-- The error inside a field or scope. -/
def inside : Enclosure → ConfigError → ConfigError
  | .scope k => nested k
  | .field name => field name

/-- The fields and scopes around the root cause, outermost first. -/
def enclosures : ConfigError → List Enclosure
  | nested k source => .scope k :: source.enclosures
  | field name source => .field name :: source.enclosures
  | _ => []

theorem rootCause_foldr_inside (path : List Enclosure) (e : ConfigError) :
    (path.foldr inside e).rootCause = e.rootCause := by
  induction path with
  | nil => rfl
  | cons c path ih => cases c <;> exact ih

theorem enclosures_foldr_inside (path : List Enclosure) (e : ConfigError) :
    (path.foldr inside e).enclosures = path ++ e.enclosures := by
  induction path with
  | nil => rfl
  | cons c path ih => cases c <;> exact congrArg (_ :: ·) ih

/-- An error is its root cause inside all that stands around it. -/
theorem foldr_inside_rootCause (e : ConfigError) : e.enclosures.foldr inside e.rootCause = e := by
  induction e with
  | nested k source ih => exact congrArg (nested k) ih
  | field name source ih => exact congrArg (field name) ih
  | _ => rfl

end ConfigError

/-! ## Complaints of computations -/

/-- Why a computation fails, if it does. -/
def fault {α : Type} : Except ConfigError α → Option ConfigError
  | .error e => some e
  | .ok _ => none

theorem fault_eq_none_iff {α : Type} {x : Except ConfigError α} :
    fault x = none ↔ ∃ a, x = .ok a := by
  cases x with
  | error e => exact ⟨fun h => (nomatch h), fun ⟨_, h⟩ => (nomatch h)⟩
  | ok a => exact ⟨fun _ => ⟨a, rfl⟩, fun _ => rfl⟩

theorem fault_eq_some_iff {α : Type} {x : Except ConfigError α} {e : ConfigError} :
    fault x = some e ↔ x = .error e := by
  cases x with
  | error e' => exact ⟨fun h => congrArg _ (Option.some.inj h), fun h => by cases h; rfl⟩
  | ok a => exact ⟨fun h => (nomatch h), fun h => (nomatch h)⟩

/-- A computation followed by another, which fails in the same way after every result. -/
theorem fault_bind {α β : Type} {x : Except ConfigError α} {f : α → Except ConfigError β}
    {o : Option ConfigError} (h : ∀ a, fault (f a) = o) : fault (x >>= f) = (fault x).or o := by
  cases x with
  | error e => rfl
  | ok a => exact h a

theorem fault_bind_pure {α β : Type} (x : Except ConfigError α) (f : α → β) :
    fault (x >>= fun a => pure (f a)) = fault x := by
  cases x <;> rfl

theorem fault_map {α β : Type} (x : Except ConfigError α) (f : α → β) :
    fault (x.map f) = fault x := by
  cases x <;> rfl

theorem fault_mapError {α : Type} (x : Except ConfigError α) (f : ConfigError → ConfigError) :
    fault (x.mapError f) = (fault x).map f := by
  cases x <;> rfl

/-! ## The single checks -/

namespace Limits

variable {α : Type} (read : Key → String → Except ConfigError (Bound α)) (below : α → α → Bool)
  (lowerKey upperKey : Key) (slots : Limits String)

/-- The complaint that the lower bound is above the upper one. -/
def inversion : Option ConfigError :=
  match Bound.ofSlot read lowerKey slots.lower, Bound.ofSlot read upperKey slots.upper with
  | .ok (some l), .ok (some u) =>
    if below u.value l.value then some (.invertedBounds lowerKey l.text upperKey u.text) else .none
  | _, _ => .none

/-- The checks of two limits: the lower bound, the upper bound and their order. -/
def faults : List (Option ConfigError) :=
  [fault (Bound.ofSlot read lowerKey slots.lower), fault (Bound.ofSlot read upperKey slots.upper),
    inversion read below lowerKey upperKey slots]

theorem fault_read : fault (Limits.read read below lowerKey upperKey slots) =
    (faults read below lowerKey upperKey slots).findSome? id := by
  unfold faults inversion Limits.read
  cases Bound.ofSlot read lowerKey slots.lower with
  | error e => rfl
  | ok l =>
    cases Bound.ofSlot read upperKey slots.upper with
    | error e => rfl
    | ok u =>
      cases l with
      | none => rfl
      | some l =>
        cases u with
        | none => rfl
        | some u =>
          show fault (if below u.value l.value then throw _ else pure _) = _
          dsimp only
          cases below u.value l.value <;> rfl

end Limits

/-- A single check of a tree. -/
structure Inspection where
  /-- The fields and scopes on the way from the root to the node, outermost first. -/
  path : List Enclosure
  /-- Why the check fails, if it does. -/
  complaint : Option ConfigError

namespace Inspection

/-- The check as seen from outside a field or scope. -/
def within (c : Enclosure) (i : Inspection) : Inspection := { i with path := c :: i.path }

/-- The error that the check ends in, if it fails. -/
def error? (i : Inspection) : Option ConfigError :=
  i.complaint.map (i.path.foldr ConfigError.inside ·)

/-- Checks of the node itself. -/
def here (faults : List (Option ConfigError)) : List Inspection := faults.map (⟨[], ·⟩)

theorem findSome?_here (faults : List (Option ConfigError)) :
    (here faults).findSome? error? = faults.findSome? id := by
  rw [here, List.findSome?_map]
  congr 1
  exact funext (congrFun Option.map_id)

theorem error?_within (c : Enclosure) (i : Inspection) :
    (i.within c).error? = i.error?.map (ConfigError.inside c) := by
  rw [error?, error?, Option.map_map]
  rfl

theorem findSome?_within (c : Enclosure) (is : List Inspection) :
    (is.map (within c)).findSome? error? = (is.findSome? error?).map (ConfigError.inside c) := by
  induction is with
  | nil => rfl
  | cons i is ih =>
    rw [List.map_cons, List.findSome?_cons, List.findSome?_cons, error?_within, ih]
    cases i.error? <;> rfl

end Inspection

namespace Draft

open Inspection (here within)

/-- The checks of a leaf's limits. -/
def scalarFaults (slots : Limits String) : ScalarKind → List (Option ConfigError)
  | .integer => Limits.faults Bound.integer (· < ·) .min .max slots
  | .float => Limits.faults Bound.float Floating.lt .min .max slots
  | .string => Limits.faults Bound.count (· < ·) .minLen .maxLen slots
  | .byte => []
  | .bool => []

/-- The checks of a collection's size. -/
def sizeFaults (slots : Limits String) : List (Option ConfigError) :=
  Limits.faults Bound.count (· < ·) .minItems .maxItems slots

/-- The check of a chain. -/
def chainFaults (func : Option String) : List (Option ConfigError) := [fault (Chain.ofSlot func)]

mutual

/-- The checks of a tree, in the order in which they count. -/
def inspections : Draft → List Inspection
  | .scalar kind limits func => here (scalarFaults limits kind ++ chainFaults func)
  | .optional nullable notNull inner =>
    here [if nullable && notNull then some .conflictingNullability else none] ++ inner.inspections
  | .array size item => here (sizeFaults size) ++ item.inspections.map (within (.scope .item))
  | .map size k v =>
    here (sizeFaults size) ++ k.inspections.map (within (.scope .key)) ++
      v.inspections.map (within (.scope .value))
  | .inline fields func => fieldInspections fields ++ here (chainFaults func)
  | .delegated func => here (chainFaults func)
  | .wrapper _ _ inner func => inner.inspections ++ here (chainFaults func)
  | .interface _ func => here (chainFaults func)
  | .skip => []

/-- The checks of a struct's fields, field by field. -/
def fieldInspections : List (Field Draft) → List Inspection
  | [] => []
  | ⟨_, name, node⟩ :: rest => node.inspections.map (within (.field name)) ++ fieldInspections rest

end

/-! ## Freezing goes through the checks -/

theorem fault_freezeScalar (slots : Limits String) (kind : ScalarKind) :
    fault (freezeScalar slots kind) = (scalarFaults slots kind).findSome? id := by
  cases kind with
  | integer => rw [freezeScalar, fault_map, Limits.fault_read, scalarFaults]
  | float => rw [freezeScalar, fault_map, Limits.fault_read, scalarFaults]
  | string => rw [freezeScalar, fault_map, freezeCount, Limits.fault_read, scalarFaults]
  | byte => rfl
  | bool => rfl

theorem findSome?_chainFaults (func : Option String) :
    (chainFaults func).findSome? id = fault (Chain.ofSlot func) := by
  rw [chainFaults, List.findSome?_singleton]
  rfl

/-- A tree fails to freeze as the first of its checks that fails. -/
theorem fault_freeze (d : Draft) :
    fault d.freeze = d.inspections.findSome? Inspection.error? := by
  induction d using Draft.induct with
  | scalar kind limits func =>
    rw [freeze, fault_bind fun _ => fault_bind_pure _ _, inspections, Inspection.findSome?_here,
      List.findSome?_append, fault_freezeScalar, findSome?_chainFaults]
  | optional nullable notNull inner ih =>
    rw [inspections, List.findSome?_append, Inspection.findSome?_here, ← ih, freeze]
    cases nullable && notNull with
    | true => rfl
    | false => exact fault_bind_pure _ _
  | array size item ih =>
    rw [freeze, fault_bind fun _ => fault_bind_pure _ _, fault_mapError, ih, inspections,
      List.findSome?_append, Inspection.findSome?_here, Inspection.findSome?_within, freezeCount,
      Limits.fault_read]
    rfl
  | map size k v ihk ihv =>
    rw [freeze, fault_bind fun _ => fault_bind fun _ => fault_bind_pure _ _, fault_mapError,
      fault_mapError, ihk, ihv, inspections, List.findSome?_append, List.findSome?_append,
      Inspection.findSome?_here, Inspection.findSome?_within, Inspection.findSome?_within,
      freezeCount, Limits.fault_read, Option.or_assoc]
    rfl
  | inline fields func ih =>
    have hfields : fault (freezeFields fields) =
        (fieldInspections fields).findSome? Inspection.error? := by
      induction fields with
      | nil => rfl
      | cons f fields ihf =>
        have hrest := ihf fun g hg => ih g (List.mem_cons_of_mem f hg)
        rw [freezeFields, fault_bind fun _ => fault_bind_pure _ _, fault_mapError,
          ih f List.mem_cons_self, hrest, fieldInspections, List.findSome?_append,
          Inspection.findSome?_within]
        rfl
    rw [freeze, fault_bind fun _ => fault_bind_pure _ _, hfields, inspections,
      List.findSome?_append, Inspection.findSome?_here, findSome?_chainFaults]
  | delegated func =>
    rw [freeze, fault_bind_pure, inspections, Inspection.findSome?_here, findSome?_chainFaults]
  | wrapper ty mode inner func ih =>
    rw [freeze, fault_bind fun _ => fault_bind_pure _ _, ih, inspections, List.findSome?_append,
      Inspection.findSome?_here, findSome?_chainFaults]
  | interface indirect func =>
    rw [freeze, fault_bind_pure, inspections, Inspection.findSome?_here, findSome?_chainFaults]
  | skip => rfl

/-! ## Complaints are root causes -/

/-- All failures among the results are errors without anything around them. -/
def Plain (faults : List (Option ConfigError)) : Prop :=
  ∀ e, some e ∈ faults → e.enclosures = []

theorem Plain.append {as bs : List (Option ConfigError)} (ha : Plain as) (hb : Plain bs) :
    Plain (as ++ bs) :=
  fun e he => (List.mem_append.mp he).elim (ha e) (hb e)

theorem enclosures_of_count {k : Key} {text : String} {e : ConfigError}
    (h : Bound.count k text = .error e) : e.enclosures = [] := by
  unfold Bound.count at h
  split at h
  · cases h; rfl
  · split at h
    · cases h; rfl
    · split at h
      · cases h; rfl
      · cases h

theorem enclosures_of_integer {k : Key} {text : String} {e : ConfigError}
    (h : Bound.integer k text = .error e) : e.enclosures = [] := by
  unfold Bound.integer at h
  split at h
  · cases h
  · cases h; rfl

theorem enclosures_of_float {k : Key} {text : String} {e : ConfigError}
    (h : Bound.float k text = .error e) : e.enclosures = [] := by
  unfold Bound.float at h
  split at h
  · cases h
  · cases h; rfl

theorem plain_faults {α : Type} {read : Key → String → Except ConfigError (Bound α)}
    {below : α → α → Bool} {lowerKey upperKey : Key} {slots : Limits String}
    (hread : ∀ {k text e}, read k text = .error e → e.enclosures = []) :
    Plain (Limits.faults read below lowerKey upperKey slots) := by
  have hslot : ∀ {k slot e}, fault (Bound.ofSlot read k slot) = some e → e.enclosures = [] := by
    intro k slot e h
    cases slot with
    | none => cases h
    | some text =>
      rw [Bound.ofSlot, fault_map] at h
      exact hread (fault_eq_some_iff.mp h)
  intro e he
  simp only [Limits.faults, List.mem_cons, List.not_mem_nil, or_false] at he
  rcases he with he | he | he
  · exact hslot he.symm
  · exact hslot he.symm
  · unfold Limits.inversion at he
    split at he
    · split at he
      · cases he; rfl
      · cases he
    · cases he

theorem plain_scalarFaults (slots : Limits String) (kind : ScalarKind) :
    Plain (scalarFaults slots kind) := by
  cases kind with
  | integer => exact plain_faults enclosures_of_integer
  | float => exact plain_faults enclosures_of_float
  | string => exact plain_faults enclosures_of_count
  | byte => exact fun _ he => (nomatch he)
  | bool => exact fun _ he => (nomatch he)

theorem plain_sizeFaults (slots : Limits String) : Plain (sizeFaults slots) :=
  plain_faults enclosures_of_count

theorem enclosures_of_entries {chain : String} {entries : List (List Char)} {e : ConfigError}
    (h : Chain.entries chain entries = .error e) : e.enclosures = [] := by
  induction entries generalizing e with
  | nil => cases h
  | cons s ss ih =>
    unfold Chain.entries at h
    split at h
    · cases h; rfl
    · cases hrest : Chain.entries chain ss with
      | ok vs => rw [hrest] at h; cases h
      | error e' =>
        rw [hrest] at h
        cases h
        exact ih hrest

theorem plain_chainFaults (func : Option String) : Plain (chainFaults func) := by
  intro e he
  have hfault := fault_eq_some_iff.mp (List.mem_singleton.mp he).symm
  cases func with
  | none => cases hfault
  | some chain => exact enclosures_of_entries hfault

/-- No check complains about more than a root cause. -/
def PlainComplaints (is : List Inspection) : Prop :=
  ∀ i ∈ is, ∀ e, i.complaint = some e → e.enclosures = []

namespace PlainComplaints

variable {is js : List Inspection}

theorem here {faults : List (Option ConfigError)} (h : Plain faults) :
    PlainComplaints (here faults) := by
  intro i hi e he
  obtain ⟨o, ho, rfl⟩ := List.mem_map.mp hi
  exact h e (he ▸ ho)

theorem within (h : PlainComplaints is) (c : Enclosure) : PlainComplaints (is.map (within c)) := by
  intro i hi e he
  obtain ⟨j, hj, rfl⟩ := List.mem_map.mp hi
  exact h j hj e he

theorem append (his : PlainComplaints is) (hjs : PlainComplaints js) :
    PlainComplaints (is ++ js) :=
  fun i hi => (List.mem_append.mp hi).elim (his i) (hjs i)

end PlainComplaints

/-- What a check complains about has nothing around it. -/
theorem plain_inspections (d : Draft) : PlainComplaints d.inspections := by
  have hchain func : PlainComplaints (here (chainFaults func)) := .here (plain_chainFaults func)
  have hsize size : PlainComplaints (here (sizeFaults size)) := .here (plain_sizeFaults size)
  induction d using Draft.induct with
  | scalar kind limits func =>
    exact .here ((plain_scalarFaults limits kind).append (plain_chainFaults func))
  | optional nullable notNull inner ih =>
    refine .append (.here fun e he => ?_) ih
    have hconflict := List.mem_singleton.mp he
    split at hconflict
    · cases hconflict; rfl
    · cases hconflict
  | array size item ih => exact .append (hsize size) (ih.within _)
  | map size k v ihk ihv => exact .append (.append (hsize size) (ihk.within _)) (ihv.within _)
  | inline fields func ih =>
    refine .append ?_ (hchain func)
    induction fields with
    | nil => exact fun _ hi => (nomatch hi)
    | cons f fields ihf =>
      exact .append ((ih f List.mem_cons_self).within _)
        (ihf fun g hg => ih g (List.mem_cons_of_mem f hg))
  | delegated func => exact hchain func
  | wrapper ty mode inner func ih => exact .append ih (hchain func)
  | interface indirect func => exact hchain func
  | skip => exact fun _ hi => (nomatch hi)

end Draft

/-! ## The frozen tree -/

/-- The bounds that slots hold. -/
def Limits.ReadBy {α : Type} (read : Key → String → Except ConfigError (Bound α))
    (lowerKey upperKey : Key) (slots : Limits String) (limits : Limits (Bound α)) : Prop :=
  Bound.ofSlot read lowerKey slots.lower = .ok limits.lower ∧
    Bound.ofSlot read upperKey slots.upper = .ok limits.upper

/-- The check of a leaf with the bounds that its slots hold. -/
inductive ScalarCheck.Holds : ScalarKind → Limits String → ScalarCheck → Prop
  | integer {slots range} (h : Limits.ReadBy Bound.integer .min .max slots range) :
    Holds .integer slots (.integer range)
  | float {slots range} (h : Limits.ReadBy Bound.float .min .max slots range) :
    Holds .float slots (.float range)
  | string {slots length} (h : Limits.ReadBy Bound.count .minLen .maxLen slots length) :
    Holds .string slots (.string length)
  | byte {slots} : Holds .byte slots .byte
  | bool {slots} : Holds .bool slots .bool

namespace Draft

/-- The plan has the shape of the tree, and the values that the slots of the tree hold. -/
inductive Frozen : Draft → Plan → Prop
  | scalar {kind limits func check chain} (hcheck : ScalarCheck.Holds kind limits check)
    (hchain : Chain.ofSlot func = .ok chain) :
    Frozen (.scalar kind limits func) (.scalar check chain)
  | optional {nullable notNull inner q} (h : Frozen inner q) :
    Frozen (.optional nullable notNull inner) (.optional nullable q)
  | array {size limits item q} (hsize : Limits.ReadBy Bound.count .minItems .maxItems size limits)
    (h : Frozen item q) : Frozen (.array size item) (.array limits q)
  | map {size limits k v q r} (hsize : Limits.ReadBy Bound.count .minItems .maxItems size limits)
    (hk : Frozen k q) (hv : Frozen v r) : Frozen (.map size k v) (.map limits q r)
  | inline {fields plans func chain}
    (hsame : plans.map (fun g => (g.member, g.name)) = fields.map fun f => (f.member, f.name))
    (hnode : ∀ p ∈ fields.zip plans, Frozen p.1.node p.2.node)
    (hchain : Chain.ofSlot func = .ok chain) : Frozen (.inline fields func) (.inline plans chain)
  | delegated {func chain} (hchain : Chain.ofSlot func = .ok chain) :
    Frozen (.delegated func) (.delegated chain)
  | wrapper {ty mode inner func q chain} (h : Frozen inner q)
    (hchain : Chain.ofSlot func = .ok chain) :
    Frozen (.wrapper ty mode inner func) (.wrapper ty mode q chain)
  | interface {indirect func chain} (hchain : Chain.ofSlot func = .ok chain) :
    Frozen (.interface indirect func) (.interface indirect chain)
  | skip : Frozen .skip .skip

theorem holds_of_freezeScalar {slots : Limits String} {kind : ScalarKind} {check : ScalarCheck}
    (h : freezeScalar slots kind = .ok check) : ScalarCheck.Holds kind slots check := by
  cases kind with
  | integer =>
    obtain ⟨range, hr, rfl⟩ := map_eq_ok.mp h
    exact .integer (Limits.read_eq_ok hr)
  | float =>
    obtain ⟨range, hr, rfl⟩ := map_eq_ok.mp h
    exact .float (Limits.read_eq_ok hr)
  | string =>
    obtain ⟨length, hr, rfl⟩ := map_eq_ok.mp h
    exact .string (Limits.read_eq_ok hr)
  | byte => cases h; exact .byte
  | bool => cases h; exact .bool

theorem frozen_of_freezeFields {fields : List (Field Draft)} {plans : List (Field Plan)}
    (ih : ∀ f ∈ fields, ∀ {p : Plan}, f.node.freeze = .ok p → Frozen f.node p)
    (h : freezeFields fields = .ok plans) :
    plans.map (fun g => (g.member, g.name)) = fields.map (fun f => (f.member, f.name)) ∧
      ∀ p ∈ fields.zip plans, Frozen p.1.node p.2.node := by
  induction fields generalizing plans with
  | nil =>
    cases h
    exact ⟨rfl, fun _ hp => (nomatch hp)⟩
  | cons f fields ihf =>
    obtain ⟨q, rest, hq, hr, rfl⟩ := freezeFields_cons h
    obtain ⟨hsame, hnode⟩ := ihf (fun g hg => ih g (List.mem_cons_of_mem f hg)) hr
    refine ⟨?_, fun p hp => ?_⟩
    · rw [List.map_cons, List.map_cons, hsame]
    · rcases List.mem_cons.mp hp with rfl | hp
      · exact ih f List.mem_cons_self hq
      · exact hnode p hp

theorem frozen_of_freeze {d : Draft} {p : Plan} (h : d.freeze = .ok p) : Frozen d p := by
  induction d using Draft.induct generalizing p with
  | scalar kind limits func =>
    obtain ⟨check, chain, hk, hc, rfl⟩ := freeze_scalar h
    exact .scalar (holds_of_freezeScalar hk) hc
  | optional nullable notNull inner ih =>
    obtain ⟨q, hq, rfl⟩ := freeze_optional h
    exact .optional (ih hq)
  | array size item ih =>
    obtain ⟨l, q, hl, hq, rfl⟩ := freeze_array h
    exact .array (Limits.read_eq_ok hl) (ih hq)
  | map size k v ihk ihv =>
    obtain ⟨l, q, r, hl, hq, hr, rfl⟩ := freeze_map h
    exact .map (Limits.read_eq_ok hl) (ihk hq) (ihv hr)
  | inline fields func ih =>
    obtain ⟨plans, chain, hp, hc, rfl⟩ := freeze_inline h
    obtain ⟨hsame, hnode⟩ := frozen_of_freezeFields (fun f hf => ih f hf) hp
    exact .inline hsame hnode hc
  | delegated func =>
    obtain ⟨chain, hc, rfl⟩ := freeze_delegated h
    exact .delegated hc
  | wrapper ty mode inner func ih =>
    obtain ⟨q, chain, hq, hc, rfl⟩ := freeze_wrapper h
    exact .wrapper (ih hq) hc
  | interface indirect func =>
    obtain ⟨chain, hc, rfl⟩ := freeze_interface h
    exact .interface hc
  | skip =>
    cases h
    exact .skip

/-! ## The first inconsistency -/

/-- A tree fails to freeze with the first complaint, inside what stands around it. -/
theorem freeze_eq_error_iff (d : Draft) (e : ConfigError) :
    d.freeze = .error e ↔ ∃ before i after, d.inspections = before ++ i :: after ∧
      (∀ j ∈ before, j.complaint = none) ∧ i.complaint = some e.rootCause ∧
      i.path = e.enclosures := by
  have hplain := plain_inspections d
  rw [← fault_eq_some_iff, fault_freeze, List.findSome?_eq_some_iff]
  constructor
  · rintro ⟨before, i, after, hsplit, hi, hbefore⟩
    obtain ⟨cause, hcause, rfl⟩ := Option.map_eq_some_iff.mp hi
    have hmem : i ∈ d.inspections := hsplit ▸ List.mem_append_right _ List.mem_cons_self
    have hroot : cause.rootCause = cause := by
      have hself := cause.foldr_inside_rootCause
      rwa [hplain i hmem cause hcause] at hself
    refine ⟨before, i, after, hsplit, fun j hj => Option.map_eq_none_iff.mp (hbefore j hj), ?_, ?_⟩
    · rw [ConfigError.rootCause_foldr_inside, hroot, hcause]
    · rw [ConfigError.enclosures_foldr_inside, hplain i hmem cause hcause, List.append_nil]
  · rintro ⟨before, i, after, hsplit, hbefore, hcause, hpath⟩
    refine ⟨before, i, after, hsplit, ?_, fun j hj => Option.map_eq_none_iff.mpr (hbefore j hj)⟩
    rw [Inspection.error?, hcause, hpath, Option.map_some, e.foldr_inside_rootCause]

/-- **Freezing succeeds exactly on consistent trees and else reports the first inconsistency at its
place.** A tree freezes if no check of it complains, to a plan of its shape with the values of its
slots. Otherwise the root cause of the error is the complaint of the first check that has one, and
around it stand the fields and scopes on the way from the root to the node of that check. -/
theorem freeze_inspects (d : Draft) :
    ((∀ i ∈ d.inspections, i.complaint = none) ↔ ∃ p, d.freeze = .ok p) ∧
      (∀ p, d.freeze = .ok p → Frozen d p) ∧
      ∀ e, d.freeze = .error e ↔ ∃ before i after, d.inspections = before ++ i :: after ∧
        (∀ j ∈ before, j.complaint = none) ∧ i.complaint = some e.rootCause ∧
        i.path = e.enclosures := by
  refine ⟨?_, fun p => frozen_of_freeze, freeze_eq_error_iff d⟩
  rw [← fault_eq_none_iff, fault_freeze, List.findSome?_eq_none_iff]
  exact forall₂_congr fun i _ => Option.map_eq_none_iff.symm

/-- A struct of labels and of shelves with levels up to `upper`; the levels and the struct are
checked by `chain`. -/
def storeDraft (upper chain : String) : Draft :=
  .inline [⟨.named (.ofName "labels"), "labels", .array ⟨some "1", some "2"⟩ (.leaf .string)⟩,
    ⟨.named (.ofName "shelves"), "shelves", .map .none (.leaf .string)
      (.optional true false (.array .none
        (.scalar .integer ⟨some "5", some upper⟩ (some chain))))⟩] (some chain)

/-- The plan of a store with levels up to 9. -/
def storePlan : Plan :=
  .inline [⟨.named (.ofName "labels"), "labels",
      .array ⟨some ⟨"1", 1⟩, some ⟨"2", 2⟩⟩ (.scalar (.string .none) [])⟩,
    ⟨.named (.ofName "shelves"), "shelves", .map .none (.scalar (.string .none) [])
      (.optional true (.array .none (.scalar
        (.integer ⟨some ⟨"5", 5⟩, some ⟨"9", 9⟩⟩) [.method (.ofName "check")])))⟩]
    [.method (.ofName "check")]

/-- A store that freezes, and one with inverted bounds and two chains that name nothing. -/
theorem freeze_inspects_store :
    let e : ConfigError :=
      .field "shelves" (.nested .value (.nested .item (.invertedBounds .min "5" .max "3")))
    ((storeDraft "9" ".check").freeze = .ok storePlan ∧
      (∀ i ∈ (storeDraft "9" ".check").inspections, i.complaint = none) ∧
      Frozen (storeDraft "9" ".check") storePlan) ∧
    (storeDraft "3" ";").freeze = .error e ∧ ∃ before i after,
      (storeDraft "3" ";").inspections = before ++ i :: after ∧
      (∀ j ∈ before, j.complaint = none) ∧
      i.complaint = some (.invertedBounds .min "5" .max "3") ∧
      i.path = [.field "shelves", .scope .value, .scope .item] := by
  intro e
  have hfreeze : (storeDraft "9" ".check").freeze = .ok storePlan := rfl
  have hfail : (storeDraft "3" ";").freeze = .error e := rfl
  obtain ⟨hclean, hfrozen, -⟩ := freeze_inspects (storeDraft "9" ".check")
  exact ⟨⟨hfreeze, hclean.mpr ⟨_, hfreeze⟩, hfrozen _ hfreeze⟩, hfail,
    ((freeze_inspects (storeDraft "3" ";")).2.2 e).mp hfail⟩

end Draft

end FieldRules
