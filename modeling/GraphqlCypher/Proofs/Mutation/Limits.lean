import GraphqlCypher.Proofs.Mutation.Origins
import GraphqlCypher.Proofs.Mutation.Unwinding

/-! The limits of what compiles.

A walk refuses two things. A relation that is not to many must not both create and connect;
nothing is said of lists, for the input types of such a relation have none. So it gives to
one action only, but that may be given a list (`single_of_compile`,
`not_staysToOne_staff`).

And nothing may stand too deep. The walk finds that out when it goes on from an element, and
has noted the group of the element by then. A list without elements is thus noted one level
deeper than anything may stand (`not_withinDepth_nobody`), but there is nothing to unwind
(`bounded_of_compile`). -/
namespace GraphqlCypher

open Schema WalkM

/-! ### Relations to one -/

/-- The nested records of an argument: what it creates and then what it connects. -/
def ModelInfo.supplied (info : ModelInfo) (entry : String × Json) : List Json :=
  (info.branchesOf entry).flatMap fun branch => branch.2.elements

namespace Tour

variable {T : Tour} {onward : Onward} {above : List Pick} {owner : String} {info : ModelInfo}
  {supplied : List String} {s t : WalkState}

/-- A relation that is not to many leaves one of the actions out. -/
theorem given?_of_relation {field related : String} {nested out : Json.Object}
    (one : info.isToMany field = false)
    (h : Ends (T.relation onward above owner info supplied field related nested) s out t) :
    NestedAction.create.given? nested = none ∨ NestedAction.connect.given? nested = none := by
  unfold relation at h
  simp only at h
  split at h
  · exact absurd h (not_ends_throw _ s t out)
  · next both =>
    cases hcreate : NestedAction.create.given? nested with
    | none => exact .inl rfl
    | some v =>
      cases hconnect : NestedAction.connect.given? nested with
      | none => exact .inr rfl
      | some w =>
        rw [NestedAction.given?] at hcreate hconnect
        exact absurd both (by simp [one, hcreate, hconnect])

theorem branchesOf_of_argument {entry out : String × Json} (one : info.isToMany entry.1 = false)
    (h : Ends (T.argument onward above owner info supplied entry) s out t) :
    (info.branchesOf entry).length ≤ 1 := by
  obtain ⟨field, v⟩ := entry
  unfold argument at h
  split at h
  · next related nested hrelated hobject =>
    simp only [ends_bind, ends_pure] at h
    obtain ⟨written, _, hwritten, -⟩ := h
    cases hobject
    rw [ModelInfo.branchesOf_relation hrelated, NestedAction.branch, NestedAction.branch]
    rcases given?_of_relation one hwritten with hnone | hnone
    · rw [hnone]
      exact Option.length_toList_le
    · rw [hnone, Option.map_none, Option.toList_none, List.append_nil]
      exact Option.length_toList_le
  · next hother =>
    unfold ModelInfo.branchesOf
    split
    · next related nested hrelated hobject => exact absurd hobject (hother related nested hrelated)
    · exact Nat.zero_le 1

/-- A visit that ends went through every argument. -/
theorem argument_of_visit {address : List Pick} {model : String} {arguments out : Json.Object}
    (h : Ends (T.visit onward address model arguments) s out t) :
    ∃ info, T.catalog.model model = .ok info ∧ ∀ entry ∈ arguments, ∃ s out t,
      Ends (T.argument onward address model info (Entries.keys arguments) entry) s out t := by
  simp only [visit, ends_bind, ends_lift, note, ends_modify, ends_mapM] at h
  obtain ⟨info, _, ⟨hinfo, -⟩, -, _, -, runs⟩ := h
  exact ⟨info, hinfo, runs.exists_run⟩

end Tour

namespace CompiledCreate

/-- A relation that is not to many supplies one record at most. -/
def StaysToOne (c : Catalog) (m : CompiledCreate) : Prop :=
  ∀ v ∈ m.visits, ∀ info, c.model v.model = .ok info → ∀ entry ∈ v.arguments,
    info.isToMany entry.1 = false → (info.supplied entry).length ≤ 1

/-- A relation that is not to many supplies one action at most, and one record at most
unless that action has a list. -/
def SuppliesSingly (c : Catalog) (m : CompiledCreate) : Prop :=
  ∀ v ∈ m.visits, ∃ info, c.model v.model = .ok info ∧ ∀ entry ∈ v.arguments,
    info.isToMany entry.1 = false → (info.branchesOf entry).length ≤ 1 ∧
      ((∀ step items, (step, .array items) ∉ info.branchesOf entry) →
        (info.supplied entry).length ≤ 1)

end CompiledCreate

theorem ModelInfo.supplied_length_le {info : ModelInfo} {entry : String × Json}
    (single : (info.branchesOf entry).length ≤ 1)
    (noList : ∀ step items, (step, .array items) ∉ info.branchesOf entry) :
    (info.supplied entry).length ≤ 1 := by
  unfold supplied
  match hbranches : info.branchesOf entry with
  | [] => exact Nat.zero_le 1
  | [(step, w)] =>
    have hw : ∀ items, w ≠ .array items := by
      rintro items rfl
      exact noList step items (hbranches ▸ List.mem_cons_self)
    cases w with
    | array items => exact absurd rfl (hw items)
    | null | bool _ | number _ | string _ | object _ => exact Nat.le_refl 1
  | _ :: _ :: _ =>
    rw [hbranches] at single
    exact absurd single (by simp)

namespace Catalog

variable {c : Catalog} {name : String} {values : Json.Object} {ids : Option IdGenerator}
  {drawn : Nat} {m : CompiledCreate}

/-- A walk ended at each visit, with a level left for it. -/
theorem walk_of_visit (h : (c.compile name values ids drawn).1 = .ok (.create m)) :
    ∀ v ∈ m.visits, ∃ left s out t, left + v.address.length = maxNesting ∧
      Ends (Tour.walk ⟨c, m.model, ids⟩ (left + 1) v.address v.model v.arguments) s out t := by
  intro v hv
  obtain ⟨root, -, visits, -⟩ := origins_of_compile h
  obtain ⟨left, s, out, t, levels, ends⟩ := (visits v hv).ends
  cases left with
  | zero => exact absurd ends (not_ends_throw _ s t out)
  | succ left =>
    rw [List.length_nil] at levels
    exact ⟨left, s, out, t, by omega, ends⟩

/-- **Relations to one** are supplied in one way at most. -/
theorem single_of_compile (h : (c.compile name values ids drawn).1 = .ok (.create m)) :
    m.SuppliesSingly c := by
  intro v hv
  obtain ⟨left, s, out, t, -, ends⟩ := walk_of_visit h v hv
  obtain ⟨info, hinfo, arguments⟩ := Tour.argument_of_visit ends
  refine ⟨info, hinfo, fun entry hentry one => ?_⟩
  obtain ⟨s, out, t, run⟩ := arguments entry hentry
  have single := Tour.branchesOf_of_argument one run
  exact ⟨single, ModelInfo.supplied_length_le single⟩

/-- Somebody who works at one company. -/
def staff : Document :=
  [.type (.object {
    name := "Person"
    directives := [Directive.bare Names.model]
    fields := [
      { name := "id", type := .nonNull (.named "ID"), directives := [Directive.bare Names.unique] },
      { name := "employer", type := .named "Company"
        directives :=
          [⟨Names.relation, [("name", .string "WORKS_AT"), ("direction", .enum "OUT")]⟩] }] }),
   .type (.object {
    name := "Company"
    directives := [Directive.bare Names.model]
    fields := [
      { name := "id", type := .nonNull (.named "ID"), directives := [Directive.bare Names.unique] }]
   }),
   .type (.object {
    name := Names.mutation
    fields := [
      { name := "createPerson", type := .named "Person"
        directives := [Directive.bare Names.binding] }] })]

/-- One employer may be given as a list of two. -/
def staffValues : Json.Object :=
  [("data", .object [("employer", .object [("connect", .array [
    .object [("id", .string "1")], .object [("id", .string "2")]])])])]

theorem single_of_compile_staff : ∃ c m, Catalog.ofDocument staff = .ok c ∧
    (c.compile "createPerson" staffValues none 0).1 = .ok (.create m) ∧ m.visits.length = 3 ∧
    m.SuppliesSingly c := by
  have compiled : ∃ c m, Catalog.ofDocument staff = .ok c ∧
      (c.compile "createPerson" staffValues none 0).1 = .ok (.create m) ∧
      m.visits.length = 3 := ⟨_, _, rfl, rfl, rfl⟩
  obtain ⟨c, m, hc, h, visits⟩ := compiled
  exact ⟨c, m, hc, h, visits, single_of_compile h⟩

/-- Both companies of the list are supplied, and the statement puts an edge to each. -/
theorem not_staysToOne_staff : ∃ c m, Catalog.ofDocument staff = .ok c ∧
    (Json.object staffValues).WellKeyed ∧
    (c.compile "createPerson" staffValues none 0).1 = .ok (.create m) ∧ ¬ m.StaysToOne c := by
  refine ⟨_, _, rfl, by decide, rfl, fun h => ?_⟩
  exact absurd (h _ List.mem_cons_self _ rfl _ List.mem_cons_self rfl) (by decide)

end Catalog

/-! ### Depth -/

namespace Tour

variable {T : Tour} {s t : WalkState}

/-- At the last level there is nothing to go on from. -/
theorem elements_eq_nil {address : List Pick} {model : String} {arguments out : Json.Object}
    (h : Ends (T.walk 1 address model arguments) s out t) :
    ∃ info, T.catalog.model model = .ok info ∧
      ∀ step w, (step, w) ∈ info.branches arguments → w.elements = [] := by
  obtain ⟨info, hinfo, -, runs⟩ := visit_ends h
  refine ⟨info, hinfo, fun step w hbranch => ?_⟩
  obtain ⟨s, _, t, _, elements⟩ := runs.exists_run _ hbranch
  refine List.eq_nil_iff_forall_not_mem.2 fun x hx => ?_
  obtain ⟨i, hi⟩ := List.mem_iff_getElem?.1 hx
  have hnumbered : (x, i) ∈ w.elements.zipIdx := List.mk_mem_zipIdx_iff_getElem?.2 hi
  -- With no level left the walk refuses whatever it would go on from.
  obtain ⟨s, y, t, run⟩ := elements.exists_run (x, i) hnumbered
  cases run with
  | create _ _ rest => exact not_ends_throw _ _ _ _ rest
  | connect _ rest => exact not_ends_throw _ _ _ _ rest

end Tour

/-- The levels that a group unwinds. -/
def Group.levels (g : Group) : Nat := (unwinds g.root g.path).length

theorem Group.levels_eq (g : Group) : g.levels = g.above.length + 1 := by
  rw [levels, unwinds_length, path, List.length_append, List.length_singleton]

namespace CompiledCreate

/-- No group unwinds more levels than nested objects may stand deep. -/
def WithinDepth (m : CompiledCreate) : Prop := ∀ g ∈ m.groups, g.levels ≤ maxNesting

/-- How deep a compiled mutation goes. -/
structure Bounded (c : Catalog) (m : CompiledCreate) : Prop where
  /-- No object that was visited stands too deep. -/
  visits : ∀ v ∈ m.visits, v.address.length ≤ maxNesting
  /-- A group unwinds one level more at most. -/
  groups : ∀ g ∈ m.groups, g.levels ≤ maxNesting + 1
  /-- It does if one of the deepest objects has a list without elements for it. -/
  beyond : ∀ g ∈ m.groups, maxNesting < g.levels ↔
    ∃ v ∈ m.visits, v.address.length = maxNesting ∧ v.path = g.above ∧
      ∃ info, c.model v.model = .ok info ∧ (g.step, .array []) ∈ info.branches v.arguments
  /-- Then it has no rows. -/
  rows : ∀ g ∈ m.groups, maxNesting < g.levels → m.rows g = []

end CompiledCreate

namespace Catalog

variable {c : Catalog} {name : String} {values : Json.Object} {ids : Option IdGenerator}
  {drawn : Nat} {m : CompiledCreate}

theorem length_address_le (h : (c.compile name values ids drawn).1 = .ok (.create m)) :
    ∀ v ∈ m.visits, v.address.length ≤ maxNesting := by
  intro v hv
  obtain ⟨left, _, _, _, levels, -⟩ := walk_of_visit h v hv
  omega

/-- The deepest objects supply nothing but lists without elements. -/
theorem branch_of_deepest (h : (c.compile name values ids drawn).1 = .ok (.create m)) {v : Visit}
    (hv : v ∈ m.visits) (deepest : v.address.length = maxNesting) {info : ModelInfo}
    (hinfo : c.model v.model = .ok info) {step : Step} {w : Json}
    (hbranch : (step, w) ∈ info.branches v.arguments) : w = .array [] := by
  obtain ⟨left, s, out, t, levels, ends⟩ := walk_of_visit h v hv
  obtain rfl : left = 0 := by omega
  obtain ⟨info', hinfo', empty⟩ := Tour.elements_eq_nil ends
  cases hinfo.symm.trans hinfo'
  have none := empty step w hbranch
  cases w with
  | array items => rw [show items = [] from none]
  | null | bool _ | number _ | string _ | object _ => exact absurd none (by simp [Json.elements])

/-- A group was noted for the object that supplies its last step. -/
theorem owner_of_group (h : (c.compile name values ids drawn).1 = .ok (.create m)) {g : Group}
    (hg : g ∈ m.groups) : ∃ v ∈ m.visits, v.path = g.above ∧ c.Supplies v g.step := by
  obtain ⟨v, hv, step, supplies, e⟩ := (mem_paths_iff h g.path).1 (List.mem_map_of_mem hg)
  obtain ⟨habove, hstep⟩ := List.append_inj' e rfl
  cases hstep
  exact ⟨v, hv, habove.symm, supplies⟩

/-- **The bound on nesting** holds of all that is visited. A group may unwind one level more,
over lists without elements. -/
theorem bounded_of_compile (keyed : (Json.object values).WellKeyed)
    (h : (c.compile name values ids drawn).1 = .ok (.create m)) : m.Bounded c := by
  have visits := length_address_le h
  have depth : ∀ v : Visit, v.path.length = v.address.length := fun v => List.length_map _
  refine ⟨visits, fun g hg => ?_, fun g hg => ⟨fun deep => ?_, fun owner => ?_⟩,
    fun g hg deep => ?_⟩
  · obtain ⟨v, hv, habove, -⟩ := owner_of_group h hg
    rw [Group.levels_eq, ← habove, depth]
    exact Nat.succ_le_succ (visits v hv)
  · obtain ⟨v, hv, habove, supplies⟩ := owner_of_group h hg
    rw [Group.levels_eq, ← habove, depth] at deep
    have deepest : v.address.length = maxNesting := Nat.le_antisymm (visits v hv) (by omega)
    obtain ⟨info, hinfo, -⟩ := supplies.1
    obtain ⟨w, hbranch⟩ := (supplies_iff hinfo).1 supplies
    obtain rfl := branch_of_deepest h hv deepest hinfo hbranch
    exact ⟨v, hv, deepest, habove, info, hinfo, hbranch⟩
  · obtain ⟨v, -, deepest, habove, -⟩ := owner
    rw [Group.levels_eq, ← habove, depth, deepest]
    exact Nat.lt_succ_self maxNesting
  · -- The rows are the visits of the path, and nothing that was visited stands so deep.
    have none : m.visits.filter (fun v => v.path = g.path) = [] := by
      refine List.filter_eq_nil_iff.2 fun v hv => ?_
      rw [decide_eq_true_eq]
      intro hpath
      have length := (depth v).symm.trans (congrArg List.length hpath)
      rw [Group.levels, unwinds_length] at deep
      have := visits v hv
      omega
    have rows := rows_of_compile keyed h g hg
    rw [none] at rows
    exact List.map_eq_nil_iff.1 rows

/-- Friends of friends, so many levels deep, the last of whom are given as an empty list. -/
def nobody : Nat → Json.Object
  | 0 => [("friends", .object [("create", .array [])])]
  | levels + 1 => [("friends", .object [("create", .object (nobody levels))])]

set_option maxRecDepth 2000 in
theorem compile_nobody : ∃ m : CompiledCreate,
    (friendsCatalog.compile "createPerson" [("data", .object (nobody maxNesting))] none 0).1 =
      .ok (.create m) ∧ m.visits.length = 6 ∧ m.groups.map Group.levels = [1, 2, 3, 4, 5, 6] :=
  ⟨_, rfl, rfl, rfl⟩

theorem bounded_of_compile_nobody :
    (Json.object [("data", .object (nobody maxNesting))]).WellKeyed ∧ ∃ m : CompiledCreate,
      (friendsCatalog.compile "createPerson" [("data", .object (nobody maxNesting))] none 0).1 =
        .ok (.create m) ∧ m.visits.length = 6 ∧ m.Bounded friendsCatalog := by
  have keyed : (Json.object [("data", .object (nobody maxNesting))]).WellKeyed := by decide
  obtain ⟨m, h, visits, -⟩ := compile_nobody
  exact ⟨keyed, m, h, visits, bounded_of_compile keyed h⟩

/-- The empty list on the last level has a group, which unwinds six levels. -/
theorem not_withinDepth_nobody : ofDocument friends = .ok friendsCatalog ∧
    ∃ m : CompiledCreate,
      (friendsCatalog.compile "createPerson" [("data", .object (nobody maxNesting))] none 0).1 =
        .ok (.create m) ∧ ¬ m.WithinDepth := by
  obtain ⟨m, h, -, groups⟩ := compile_nobody
  refine ⟨rfl, m, h, fun within => ?_⟩
  have sixth : 6 ∈ m.groups.map Group.levels := groups ▸ by decide
  obtain ⟨g, hg, six⟩ := List.mem_map.1 sixth
  exact absurd (six ▸ within g hg) (by decide)

end Catalog

end GraphqlCypher
