import GraphqlCypher.Proofs.Entries
import GraphqlCypher.Proofs.Mutation.Run

/-! What a visit does.

The branches of an object are the steps that its relations supply, each with its value,
in the order in which the walk takes them. `visit_ends` says once what a visit that ends
has done: it noted the object, went through the branches and the elements of each, and
wrote back what it got; nothing else of the arguments has changed. All that is known
about walks that end follows from it. -/
namespace GraphqlCypher

open Schema WalkM

/-! ### Branches -/

/-- What a relation gives to an action, `null` standing for nothing. -/
def NestedAction.given? (a : NestedAction) (nested : Json.Object) : Option Json :=
  Json.given? (Entries.get? nested a.text)

/-- What is given is what stands there, unless that is `null`. -/
theorem NestedAction.given?_eq_some {a : NestedAction} {nested : Json.Object} {v : Json} :
    a.given? nested = some v ↔ Entries.get? nested a.text = some v ∧ v ≠ .null := by
  unfold given? Json.given?
  split
  · next hnull => simp [hnull, eq_comm]
  · next hother =>
    refine ⟨fun h => ⟨h, ?_⟩, And.left⟩
    rintro rfl
    exact hother h

theorem NestedAction.text_injective {a b : NestedAction} (h : a.text = b.text) : a = b := by
  cases a <;> cases b <;> first | rfl | exact absurd h (by decide)

/-- What one action is given is not changed through the other. -/
theorem NestedAction.given?_insert {a b : NestedAction} (nested : Json.Object) (v : Json)
    (h : a ≠ b) : a.given? (Entries.insert nested b.text v) = a.given? nested := by
  have hne : b.text ≠ a.text := fun e => h (text_injective e).symm
  rw [given?, Entries.get?_insert_ne nested v hne, given?]

/-- What is written for an action is what it is given then. -/
theorem NestedAction.given?_insert_self (a : NestedAction) (nested : Json.Object) {v : Json}
    (h : v ≠ .null) : a.given? (Entries.insert nested a.text v) = some v := by
  exact given?_eq_some.2 ⟨Entries.get?_insert_self nested a.text v, h⟩

theorem NestedAction.mem_keys_of_given? {a : NestedAction} {nested : Json.Object} {v : Json}
    (h : a.given? nested = some v) : a.text ∈ Entries.keys nested :=
  List.mem_map.2 ⟨_, Entries.mem_of_get? (given?_eq_some.1 h).1, rfl⟩

/-- The branch of a relation for one action, if it is given anything. -/
def NestedAction.branch (a : NestedAction) (field related : String) (nested : Json.Object) :
    List (Step × Json) :=
  ((a.given? nested).map fun v => (⟨field, a, related⟩, v)).toList

namespace ModelInfo

/-- The branches of an argument: none unless it is a relation. -/
def branchesOf (info : ModelInfo) (entry : String × Json) : List (Step × Json) :=
  match info.related? entry.1, entry.2 with
  | some related, .object nested =>
    NestedAction.create.branch entry.1 related nested ++
      NestedAction.connect.branch entry.1 related nested
  | _, _ => []

/-- The branches of an object, in order. -/
def branches (info : ModelInfo) (arguments : Json.Object) : List (Step × Json) :=
  arguments.flatMap info.branchesOf

theorem branchesOf_relation {info : ModelInfo} {field related : String}
    (h : info.related? field = some related) (nested : Json.Object) :
    info.branchesOf (field, .object nested) =
      NestedAction.create.branch field related nested ++
        NestedAction.connect.branch field related nested := by
  simp only [branchesOf, h]

end ModelInfo

theorem NestedAction.mem_branch_iff {a : NestedAction} {field related : String}
    {nested : Json.Object} {step : Step} {v : Json} :
    (step, v) ∈ a.branch field related nested ↔
      step = ⟨field, a, related⟩ ∧ a.given? nested = some v := by
  unfold branch
  cases a.given? nested with
  | none => simp
  | some w => simp [eq_comm]

namespace ModelInfo

theorem mem_branchesOf_iff {info : ModelInfo} {entry : String × Json} {step : Step} {v : Json} :
    (step, v) ∈ info.branchesOf entry ↔ info.related? step.field = some step.related ∧
      ∃ nested, entry = (step.field, .object nested) ∧ step.action.given? nested = some v := by
  constructor
  · intro h
    unfold branchesOf at h
    split at h
    · next related nested hrelated hobject =>
      have hentry : entry = (entry.1, .object nested) := by rw [← hobject]
      rcases List.mem_append.1 h with h | h
      all_goals
        obtain ⟨rfl, hgiven⟩ := NestedAction.mem_branch_iff.1 h
        exact ⟨hrelated, nested, hentry, hgiven⟩
    · exact absurd h List.not_mem_nil
  · intro h
    obtain ⟨hrelated, nested, rfl, hgiven⟩ := h
    rw [branchesOf_relation hrelated, List.mem_append]
    obtain ⟨field, action, related⟩ := step
    cases action with
    | create => exact .inl (NestedAction.mem_branch_iff.2 ⟨rfl, hgiven⟩)
    | connect => exact .inr (NestedAction.mem_branch_iff.2 ⟨rfl, hgiven⟩)

/-- The branches are the steps that hold something under a relation. -/
theorem mem_branches_iff {info : ModelInfo} {arguments : Json.Object} {step : Step} {v : Json} :
    (step, v) ∈ info.branches arguments ↔ info.related? step.field = some step.related ∧
      ∃ nested, (step.field, .object nested) ∈ arguments ∧ step.action.given? nested = some v := by
  simp only [branches, List.mem_flatMap, mem_branchesOf_iff]
  constructor
  · intro h
    obtain ⟨entry, hentry, hrelated, nested, rfl, hgiven⟩ := h
    exact ⟨hrelated, nested, hentry, hgiven⟩
  · intro h
    obtain ⟨hrelated, nested, hentry, hgiven⟩ := h
    exact ⟨_, hentry, hrelated, nested, rfl, hgiven⟩

end ModelInfo

/-! ### What is kept -/

/-- An argument after a visit: it is the same, or a relation in which nothing but the values
of the two actions may differ. -/
inductive EntryKept (info : ModelInfo) : String × Json → String × Json → Prop where
  | same (entry : String × Json) : EntryKept info entry entry
  | relation {field related : String} {nested written : Json.Object}
      (known : info.related? field = some related)
      (keys : Entries.keys written = Entries.keys nested)
      (others : ∀ k, (∀ a : NestedAction, a.text ≠ k) →
        Entries.get? written k = Entries.get? nested k)
      (given : ∀ a : NestedAction, (a.given? written).isSome = (a.given? nested).isSome) :
      EntryKept info (field, .object nested) (field, .object written)

/-- The arguments of an object after a visit. -/
def Kept (info : ModelInfo) : Json.Object → Json.Object → Prop :=
  List.Forall₂ (EntryKept info)

theorem Kept.keys {info : ModelInfo} {arguments out : Json.Object} (h : Kept info arguments out) :
    Entries.keys out = Entries.keys arguments := by
  induction h with
  | nil => rfl
  | cons head _ ih =>
    have key : ∀ {x y : String × Json}, EntryKept info x y → y.1 = x.1 := by
      intro x y h
      cases h <;> rfl
    rw [Entries.keys, List.map_cons, key head]
    exact congrArg _ ih

/-- A branch of a relation is there before and after, or neither. -/
theorem NestedAction.branch_steps {a : NestedAction} {field related : String}
    {nested written : Json.Object} (h : (a.given? written).isSome = (a.given? nested).isSome) :
    (a.branch field related written).map Prod.fst =
      (a.branch field related nested).map Prod.fst := by
  unfold branch
  cases hw : a.given? written <;> cases hn : a.given? nested <;> simp [hw, hn] at h ⊢

/-- A visit leads to the same steps before and after. -/
theorem Kept.steps {info : ModelInfo} {arguments out : Json.Object} (h : Kept info arguments out) :
    (info.branches out).map Prod.fst = (info.branches arguments).map Prod.fst := by
  induction h with
  | nil => rfl
  | cons head _ ih =>
    have steps : ∀ {x y : String × Json}, EntryKept info x y →
        (info.branchesOf y).map Prod.fst = (info.branchesOf x).map Prod.fst := by
      intro x y h
      cases h with
      | same => rfl
      | relation known _ _ given =>
        rw [ModelInfo.branchesOf_relation known, ModelInfo.branchesOf_relation known,
          List.map_append, List.map_append, NestedAction.branch_steps (given .create),
          NestedAction.branch_steps (given .connect)]
    rw [ModelInfo.branches, ModelInfo.branches, List.flatMap_cons, List.flatMap_cons,
      List.map_append, List.map_append, steps head]
    exact congrArg _ ih

/-! ### Ids -/

/-- There is always another id. -/
def IdGenerator.Endless (g : IdGenerator) : Prop := ∀ n, ∃ id, g.next n = .ok id

theorem IdGenerator.endless_counting (stem : String) : (counting stem none).Endless :=
  fun _ => ⟨_, rfl⟩

/-- The arguments of a new node gain at most an id. -/
def Identified (arguments out : Json.Object) : Prop :=
  out = arguments ∨
    Names.id ∉ Entries.keys arguments ∧ ∃ id, out = arguments ++ [(Names.id, .string id)]

theorem withId_ok {ids : Option IdGenerator} {n : Nat} {arguments out : Json.Object} {n' : Nat}
    (h : withId ids n arguments = .ok (out, n')) : Identified arguments out := by
  unfold withId at h
  split at h
  · cases h
    exact .inl rfl
  · split at h
    · cases h
      exact .inl rfl
    · next hid =>
      split at h
      · cases h
        rw [Entries.contains_iff_mem_keys] at hid
        exact .inr ⟨hid, _, Entries.insert_of_not_mem _ hid⟩
      · cases h

/-- An id leads nowhere. -/
theorem Identified.branches {arguments out : Json.Object} (h : Identified arguments out)
    (info : ModelInfo) : info.branches out = info.branches arguments := by
  rcases h with rfl | ⟨-, id, rfl⟩
  · rfl
  · have none : info.branchesOf (Names.id, .string id) = [] := by
      unfold ModelInfo.branchesOf
      split
      · next hobject => cases hobject
      · rfl
    rw [ModelInfo.branches, List.flatMap_append, List.flatMap_singleton, none, List.append_nil,
      ModelInfo.branches]

/-! ### Groups -/

/-- An action can be done with a model: the model is known, and can be created if it is
to be. -/
def Catalog.Targets (c : Catalog) (related : String) (a : NestedAction) : Prop :=
  (∃ info, c.model related = .ok info) ∧
    (a = .create → ∃ m, c.mutation (Names.createMutation related) = .ok m)

/-- What creates the elements of a step: the mutation for that if they are created. -/
def Catalog.CreatedBy (c : Catalog) (step : Step) : Option MutationInfo → Prop
  | some info => step.action = .create ∧ c.mutation (Names.createMutation step.related) = .ok info
  | none => step.action = .connect

namespace Tour

theorem identify_ends {T : Tour} {arguments out : Json.Object} {s t : WalkState}
    (h : Ends (T.identify arguments) s out t) :
    Identified arguments out ∧ t.groups = s.groups ∧ t.visits = s.visits := by
  simp only [identify, ends_bind, ends_get, ends_lift, ends_set, ends_pure] at h
  obtain ⟨_, _, ⟨rfl, rfl⟩, r, _, ⟨hr, rfl⟩, -, _, rfl, rfl, rfl⟩ := h
  exact ⟨withId_ok hr, rfl, rfl⟩

/-- **What a group is**: its owner and its target are found by their unique fields, and its
templates are those of the mutations that the catalog has for its last step. -/
theorem eq_of_group {T : Tour} {above : List Step} {owner : String} {supplied : List String}
    {step : Step} {g : Group} (h : T.group above owner supplied step = .ok g) :
    ∃ ownerInfo target relation creation, T.catalog.model owner = .ok ownerInfo ∧
      T.catalog.model step.related = .ok target ∧
      T.catalog.mutation (Names.relationMutation owner step.field) = .ok relation ∧
      T.catalog.CreatedBy step creation ∧
      g = {
        root := T.root, above, step
        owner := if above.isEmpty then rootBindings ownerInfo.unique supplied
          else elementBindings ownerInfo.unique (elementAt T.root above)
        target := elementBindings target.unique (elementAt T.root (above ++ [step]))
        relation := relation.template
        creation := creation.map MutationInfo.template } := by
  unfold group at h
  cases howner : T.catalog.model owner with
  | error e => rw [howner] at h; cases h
  | ok ownerInfo =>
    cases htarget : T.catalog.model step.related with
    | error e => rw [howner, htarget] at h; cases h
    | ok target =>
      cases hrelation : T.catalog.mutation (Names.relationMutation owner step.field) with
      | error e => rw [howner, htarget, hrelation] at h; cases h
      | ok relation =>
        rw [howner, htarget, hrelation] at h
        obtain ⟨field, action, related⟩ := step
        cases action with
        | connect =>
          cases h
          exact ⟨ownerInfo, target, relation, none, rfl, rfl, rfl, rfl, rfl⟩
        | create =>
          cases hcreate : T.catalog.mutation (Names.createMutation related) with
          | error e => simp only [hcreate] at h; cases h
          | ok info =>
            simp only [hcreate] at h
            cases h
            exact ⟨ownerInfo, target, relation, some info, rfl, rfl, rfl, ⟨rfl, hcreate⟩, rfl⟩

theorem group_ok {T : Tour} {above : List Step} {owner : String} {supplied : List String}
    {step : Step} {g : Group} (h : T.group above owner supplied step = .ok g) :
    g.above = above ∧ g.step = step ∧ T.catalog.Targets step.related step.action := by
  obtain ⟨-, target, -, creation, -, htarget, -, creates, rfl⟩ := eq_of_group h
  refine ⟨rfl, rfl, ⟨target, htarget⟩, fun hcreate => ?_⟩
  cases creation with
  | none => exact absurd (hcreate.symm.trans creates) (by simp)
  | some info => exact ⟨info, creates.2⟩

/-- The edges of a known owner can always be put, so a group depends on its target. -/
theorem exists_group_ok {T : Tour} {above : List Step} {owner : String} {supplied : List String}
    {step : Step} {ownerInfo : ModelInfo} (howner : T.catalog.model owner = .ok ownerInfo)
    (hrelation : ∃ m, T.catalog.mutation (Names.relationMutation owner step.field) = .ok m)
    (h : T.catalog.Targets step.related step.action) :
    ∃ g, T.group above owner supplied step = .ok g := by
  obtain ⟨⟨target, htarget⟩, hcreation⟩ := h
  obtain ⟨relation, hrelation⟩ := hrelation
  unfold group
  rw [howner, htarget, hrelation]
  obtain ⟨field, action, related⟩ := step
  cases action with
  | connect => exact ⟨_, rfl⟩
  | create =>
    obtain ⟨info, hinfo⟩ := hcreation rfl
    simp only [hinfo]
    exact ⟨_, rfl⟩

/-! ### Runs -/

variable (T : Tour) (onward : Onward)

/-- How one element is walked over: an element to create gets its id first. -/
inductive ElementRun (above : List Pick) (step : Step) :
    Json × Nat → WalkState → Json × Nat → WalkState → Prop where
  | create {o new out : Json.Object} {i : Nat} {s t u : WalkState}
      (action : step.action = .create) (identified : Ends (T.identify o) s new t)
      (rest : Ends (onward (above ++ [⟨step, i⟩]) step.related new) t out u) :
      ElementRun above step (.object o, i) s (.object out, i) u
  | connect {o out : Json.Object} {i : Nat} {s t : WalkState} (action : step.action = .connect)
      (rest : Ends (onward (above ++ [⟨step, i⟩]) step.related o) s out t) :
      ElementRun above step (.object o, i) s (.object out, i) t

/-- How one branch is walked over: its group first, then its elements. -/
inductive BranchRun (above : List Pick) (owner : String) (supplied : List String) :
    Step × Json → WalkState → Step × Json → WalkState → Prop where
  | intro {step : Step} {v w : Json} {s t u : WalkState}
      (noted : Ends (T.noteGroup (above.map Pick.step) owner supplied step) s ⟨⟩ t)
      (elements : Threads (T.ElementRun onward above step) v.elements.zipIdx t
        w.elements.zipIdx u) :
      BranchRun above owner supplied (step, v) s (step, w) u

section

variable {T : Tour} {onward : Onward} {above : List Pick} {step : Step} {owner : String}
  {supplied : List String} {s t : WalkState}

theorem element_ends {e : Json × Nat} {w : Json}
    (h : Ends (T.element onward above step e) s w t) :
    T.ElementRun onward above step e s (w, e.2) t := by
  obtain ⟨e, i⟩ := e
  cases e with
  | object o =>
    simp only [element] at h
    cases haction : step.action with
    | create =>
      simp only [haction, ends_bind, ends_pure] at h
      obtain ⟨new, _, hid, out, _, hout, rfl, rfl⟩ := h
      exact .create haction hid hout
    | connect =>
      simp only [haction, ends_bind, ends_pure] at h
      obtain ⟨_, _, ⟨rfl, rfl⟩, out, _, hout, rfl, rfl⟩ := h
      exact .connect haction hout
  | null | bool _ | number _ | string _ | array _ => exact absurd h (not_ends_throw _ s t w)

/-- The elements of a step, and that what is written back is not nothing. -/
theorem elements_ends {v w : Json}
    (h : Ends (T.elements onward above owner supplied step v) s w t) :
    T.BranchRun onward above owner supplied (step, v) s (step, w) t ∧ w ≠ .null := by
  simp only [elements, ends_bind] at h
  obtain ⟨⟨⟩, u, hnoted, h⟩ := h
  have single : ∀ v : Json, Ends (T.element onward above step (v, 0)) u w t → v.elements = [v] →
      T.BranchRun onward above owner supplied (step, v) s (step, w) t ∧ w ≠ .null := by
    intro v h hv
    have run := element_ends h
    have hobject : ∃ o, w = .object o := by
      cases run <;> exact ⟨_, rfl⟩
    obtain ⟨o, rfl⟩ := hobject
    refine ⟨.intro hnoted ?_, by simp⟩
    rw [hv]
    exact .cons run (.nil t)
  cases v with
  | array items =>
    simp only [ends_bind, ends_pure, ends_mapM] at h
    obtain ⟨ws, _, hws, rfl, rfl⟩ := h
    refine ⟨.intro hnoted (hws.zipIdx.imp ?_), by simp⟩
    intro x s y t h
    obtain ⟨w, i⟩ := x
    obtain ⟨hw, rfl⟩ := h
    exact element_ends hw
  | null | bool _ | number _ | string _ | object _ => exact single _ h rfl

theorem action_ends {nested out : Json.Object}
    (h : Ends (T.action onward above owner supplied step nested) s out t) :
    Threads (T.BranchRun onward above owner supplied)
        (step.action.branch step.field step.related nested) s
        (step.action.branch step.field step.related out) t ∧
      (∀ k, step.action.text ≠ k → Entries.get? out k = Entries.get? nested k) ∧
      (∀ a : NestedAction, (a.given? out).isSome = (a.given? nested).isSome) ∧
      Entries.keys out = Entries.keys nested := by
  unfold action at h
  split at h
  · next hnone =>
    obtain ⟨rfl, rfl⟩ := (ends_pure _ _ _ _).1 h
    have none : step.action.given? out = none := hnone
    refine ⟨?_, fun _ _ => rfl, fun _ => rfl, rfl⟩
    rw [NestedAction.branch, none]
    exact .nil t
  · next v hv =>
    simp only [ends_bind, ends_pure] at h
    obtain ⟨w, _, hw, rfl, rfl⟩ := h
    have given : step.action.given? nested = some v := hv
    obtain ⟨run, hnull⟩ := elements_ends hw
    refine ⟨?_, fun k hk => Entries.get?_insert_ne nested w hk, fun a => ?_, ?_⟩
    · rw [NestedAction.branch, NestedAction.branch, given,
        step.action.given?_insert_self nested hnull]
      exact .cons run (.nil t)
    · by_cases ha : a = step.action
      · rw [ha, step.action.given?_insert_self nested hnull, given]
        rfl
      · rw [NestedAction.given?_insert nested w ha]
    · rw [Entries.keys_insert, if_pos (NestedAction.mem_keys_of_given? given)]

/-- An action leaves what is given to the other as it is. -/
theorem given?_of_action {nested out : Json.Object} {a : NestedAction} (ha : step.action ≠ a)
    (h : Ends (T.action onward above owner supplied step nested) s out t) :
    a.given? out = a.given? nested := by
  obtain ⟨-, others, -⟩ := action_ends h
  have distinct : step.action.text ≠ a.text := fun e => ha (NestedAction.text_injective e)
  rw [NestedAction.given?, others _ distinct, NestedAction.given?]

/-- A relation runs through both of its branches. -/
theorem relation_ends {info : ModelInfo} {field related : String} {nested out : Json.Object}
    (h : Ends (T.relation onward above owner info supplied field related nested) s out t) :
    Threads (T.BranchRun onward above owner supplied)
        (NestedAction.create.branch field related nested ++
          NestedAction.connect.branch field related nested) s
        (NestedAction.create.branch field related out ++
          NestedAction.connect.branch field related out) t ∧
      (∀ k, (∀ a : NestedAction, a.text ≠ k) → Entries.get? out k = Entries.get? nested k) ∧
      (∀ a : NestedAction, (a.given? out).isSome = (a.given? nested).isSome) ∧
      Entries.keys out = Entries.keys nested := by
  unfold relation at h
  simp only at h
  split at h
  · exact absurd h (not_ends_throw _ s t out)
  · obtain ⟨created, u, hcreate, hconnect⟩ := (ends_bind _ _ _ _ _).1 h
    obtain ⟨runs, others, given, keys⟩ := action_ends hcreate
    obtain ⟨runs', others', given', keys'⟩ := action_ends hconnect
    have created_same : NestedAction.create.given? out = NestedAction.create.given? created :=
      given?_of_action (by simp) hconnect
    have connect_same :
        NestedAction.connect.given? created = NestedAction.connect.given? nested :=
      given?_of_action (by simp) hcreate
    refine ⟨?_, fun k hk => ?_, fun a => (given' a).trans (given a), keys'.trans keys⟩
    · refine Threads.append (t := u) ?_ ?_
      · rw [NestedAction.branch, NestedAction.branch, created_same]
        exact runs
      · rw [NestedAction.branch, ← connect_same]
        exact runs'
    · rw [others' k (hk .connect), others k (hk .create)]

theorem argument_ends {info : ModelInfo} {entry out : String × Json}
    (h : Ends (T.argument onward above owner info supplied entry) s out t) :
    Threads (T.BranchRun onward above owner supplied) (info.branchesOf entry) s
        (info.branchesOf out) t ∧ EntryKept info entry out := by
  obtain ⟨field, v⟩ := entry
  unfold argument at h
  split at h
  · next related nested hrelated hobject =>
    simp only [ends_bind, ends_pure] at h
    obtain ⟨written, _, hwritten, rfl, rfl⟩ := h
    cases hobject
    obtain ⟨runs, others, given, keys⟩ := relation_ends hwritten
    rw [ModelInfo.branchesOf_relation hrelated, ModelInfo.branchesOf_relation hrelated]
    exact ⟨runs, .relation hrelated keys others given⟩
  · next hother =>
    obtain ⟨rfl, rfl⟩ := (ends_pure _ _ _ _).1 h
    have none : info.branchesOf (field, v) = [] := by
      unfold ModelInfo.branchesOf
      split
      · next related nested hrelated hobject =>
        exact absurd hobject (hother related nested hrelated)
      · rfl
    rw [none]
    exact ⟨.nil t, .same _⟩

/-- **What a visit does.** It notes the object, runs through the branches, and keeps
everything else. -/
theorem visit_ends {address : List Pick} {model : String} {arguments out : Json.Object}
    (h : Ends (T.visit onward address model arguments) s out t) :
    ∃ info, T.catalog.model model = .ok info ∧ Kept info arguments out ∧
      Threads (T.BranchRun onward address model (Entries.keys arguments)) (info.branches arguments)
        { s with visits := s.visits ++ [⟨address, model, arguments⟩] } (info.branches out) t := by
  simp only [visit, ends_bind, ends_lift, note, ends_modify, ends_mapM] at h
  obtain ⟨info, _, ⟨hinfo, rfl⟩, -, _, rfl, runs⟩ := h
  refine ⟨info, hinfo, ?_, ?_⟩
  · exact runs.forall₂ fun entry _ s out t h => (argument_ends h).2
  · exact runs.flatMap fun entry s out t h => (argument_ends h).1

end

end Tour

end GraphqlCypher
