import GraphqlCypher.Proofs.Catalog.Edges
import GraphqlCypher.Proofs.Mutation.Chains
import GraphqlCypher.Proofs.Mutation.Origins
import GraphqlCypher.Proofs.Mutation.ReadBack
import GraphqlCypher.Proofs.Statement.Literals

/-! The variables of a compiled create mutation.

A group binds one variable for each step of its path. The variable is made of all that the
path has gone through, so it is the same wherever it is made, and with each step it grows by
a name, so that no two of a group are the same. The calls at the end of a group refer to the
last variable and the one before it, which are those of the element and of its owner.

The read-back binds one list for each model, carries it through all later lookups and returns
it.

**Main result.** `correlated_of_compile`: the lines of every group and the clauses of the
read-back, with all their variables. -/
namespace GraphqlCypher

open Schema

/-! ### Variables of elements -/

/-- A variable grows with each step to a model that has a name. -/
theorem length_elementAt {path : List Step} (named : ∀ s ∈ path, s.related ≠ "") (root : String) :
    root.length + path.length ≤ (elementAt root path).length := by
  induction path generalizing root with
  | nil => exact Nat.le_refl _
  | cons s rest ih =>
    have grows : root.length < (s.elementAfter root).length := by
      have nonempty : s.related.length ≠ 0 := fun h =>
        named s List.mem_cons_self (String.length_eq_zero_iff.1 h)
      rw [Step.elementAfter, String.length_append, String.length_append]
      omega
    have further := ih (fun s hs => named s (List.mem_cons_of_mem _ hs)) (s.elementAfter root)
    show _ ≤ (elementAt (s.elementAfter root) rest).length
    rw [List.length_cons]
    omega

namespace Group

/-- The model of the owner. -/
def ownerModel (g : Group) : String := (g.above.getLast?.map Step.related).getD g.root

/-- A key of the owner. The root arguments may lack it. -/
def ownerKey (g : Group) (supplied : List String) (k : String) : String :=
  k ++ ": " ++ if g.above = [] ∧ k ∉ supplied then "NULL" else g.holder g.above.length ++ "." ++ k

def targetKey (g : Group) (k : String) : String :=
  k ++ ": " ++ g.variableAt g.path.length ++ "." ++ k

/-- The line that creates the element. -/
def createLine (g : Group) (creation : MutationInfo) : String :=
  "CALL graphql.execute('" ++ creation.template.text ++ "', " ++ g.variableAt g.path.length ++
    ") YIELD result AS create" ++ g.variableAt g.path.length ++ "Result"

/-- The line that puts the edge, for an owner and a target with unique fields. -/
def attachLine (g : Group) (supplied : List String) (owner target : ModelInfo)
    (relation : MutationInfo) : String :=
  "CALL graphql.execute('" ++ relation.template.text ++ "', \x7b where: \x7b " ++
    ", ".intercalate (owner.unique.map (g.ownerKey supplied)) ++ " \x7d, " ++ g.step.field ++
    ": [\x7b" ++ ", ".intercalate (target.unique.map g.targetKey) ++
    "\x7d] \x7d) YIELD result AS " ++ Names.relationMutation g.ownerModel g.step.field ++
    g.variableAt g.path.length ++ "Result"

/-- A group of a statement for a root model and root arguments with the given keys. -/
structure Correlated (d : Document) (c : Catalog) (model : String) (supplied : List String)
    (g : Group) : Prop where
  root : g.root = model
  /-- Relations lead along the path. -/
  leads : c.Leads model g.path g.step.related
  /-- No two variables are the same. -/
  distinct : ((List.range g.path.length).map fun i => g.variableAt (i + 1)).Nodup
  /-- One unwind for each step, the creation if the last step creates, and the edge. -/
  lines : ∃ owner target relation creation, c.model g.ownerModel = .ok owner ∧
    c.model g.step.related = .ok target ∧
    c.mutation (Names.relationMutation g.ownerModel g.step.field) = .ok relation ∧
    c.CreatedBy g.step creation ∧
    g.lines = ["WITH COUNT(*) AS SCOPE"] ++ g.path.mapIdx g.unwindLine ++
      (creation.map g.createLine).toList ++ [g.attachLine supplied owner target relation]
  /-- The mutation that puts the edge is that of the last step, unless another edge of the
  document has a mutation of that name. -/
  edge : ∃ e ∈ d.edges, e.model = g.ownerModel ∧ e.field = g.step.field ∧
    e.related = g.step.related ∧ g.relation.mutation = e.mutation ∧
    ((∀ e' ∈ d.edges, e'.mutation = e.mutation → e' = e) → g.relation = e.mutationInfo.template)

theorem variableAt_length (g : Group) : g.variableAt g.path.length = g.element := by
  rw [variableAt, List.take_length, element]

theorem variableAt_above (g : Group) : g.variableAt g.above.length = elementAt g.root g.above := by
  rw [variableAt, path, List.take_left]

/-- Later variables are longer. -/
theorem length_variableAt_lt {g : Group} (named : ∀ s ∈ g.path, s.related ≠ "") {i j : Nat}
    (hij : i < j) (hj : j ≤ g.path.length) :
    (g.variableAt i).length < (g.variableAt j).length := by
  let further := (g.path.take j).drop i
  have split : g.path.take j = g.path.take i ++ further := by
    have first : (g.path.take j).take i = g.path.take i := by
      rw [List.take_take, Nat.min_eq_left (Nat.le_of_lt hij)]
    rw [← first, List.take_append_drop]
  have steps : further.length = j - i := by
    rw [List.length_drop, List.length_take, Nat.min_eq_left hj]
  have sub : ∀ s ∈ further, s.related ≠ "" := fun s hs =>
    named s (List.mem_of_mem_take (List.mem_of_mem_drop hs))
  have longer := length_elementAt sub (g.variableAt i)
  rw [variableAt, variableAt, split, elementAt_append]
  rw [variableAt] at longer
  omega

theorem nodup_variables {g : Group} (named : ∀ s ∈ g.path, s.related ≠ "") :
    ((List.range g.path.length).map fun i => g.variableAt (i + 1)).Nodup := by
  have increasing : ∀ i j, i < j → j < g.path.length →
      g.variableAt (i + 1) ≠ g.variableAt (j + 1) := by
    intro i j hij hj same
    have longer := length_variableAt_lt named (Nat.succ_lt_succ hij) hj
    rw [same] at longer
    exact Nat.lt_irrefl _ longer
  refine List.nodup_range.map_on fun i hi j hj same => ?_
  rw [List.mem_range] at hi hj
  rcases Nat.lt_trichotomy i j with hij | rfl | hji
  · exact absurd same (increasing i j hij hj)
  · rfl
  · exact absurd same.symm (increasing j i hji hi)

/-- The bindings of an owner, key by key. -/
theorem text_owner (g : Group) (supplied keys : List String)
    (h : g.owner = if g.above.isEmpty then rootBindings keys supplied
      else elementBindings keys (elementAt g.root g.above)) :
    bindingsText g.owner = ", ".intercalate (keys.map (g.ownerKey supplied)) := by
  rw [h, bindingsText]
  cases habove : g.above with
  | nil =>
    rw [if_pos (by rfl), rootBindings, List.map_map]
    refine congrArg _ (List.map_congr_left fun k _ => ?_)
    have dotted : "\x7bvariables\x7d." ++ k = g.holder 0 ++ "." ++ k := rfl
    by_cases hk : k ∈ supplied
    · rw [ownerKey, if_neg fun h => h.2 hk, Function.comp, if_pos (List.contains_iff_mem.2 hk),
        KeyBinding.text, dotted, habove, List.length_nil]
    · rw [ownerKey, if_pos ⟨habove, hk⟩, Function.comp,
        if_neg fun h => hk (List.contains_iff_mem.1 h), KeyBinding.text]
  | cons s rest =>
    have held : g.holder (s :: rest).length = elementAt g.root (s :: rest) := by
      rw [← habove, ← variableAt_above, habove]
      rfl
    rw [if_neg (by simp), elementBindings, List.map_map]
    refine congrArg _ (List.map_congr_left fun k _ => ?_)
    rw [ownerKey, if_neg (by simp [habove]), habove, held]
    rfl

theorem text_target (g : Group) (keys : List String)
    (h : g.target = elementBindings keys g.element) :
    bindingsText g.target = ", ".intercalate (keys.map g.targetKey) := by
  rw [h, bindingsText, elementBindings, List.map_map]
  refine congrArg _ (List.map_congr_left fun k _ => ?_)
  rw [targetKey, variableAt_length, String.append_assoc, String.append_assoc]
  simp only [Function.comp, KeyBinding.text, String.append_assoc]

theorem creationCall_eq (g : Group) (info : MutationInfo) :
    g.creationCall info.template = g.createLine info := by
  unfold creationCall createLine
  rw [variableAt_length]

/-- The lines of a group, given what its parts are made from. -/
theorem lines_eq {g : Group} {supplied : List String} {owner target : ModelInfo}
    {relation : MutationInfo} {creation : Option MutationInfo}
    (howner : g.owner = if g.above.isEmpty then rootBindings owner.unique supplied
      else elementBindings owner.unique (elementAt g.root g.above))
    (htarget : g.target = elementBindings target.unique g.element)
    (hrelation : g.relation = relation.template)
    (hcalls : g.relation.mutation = Names.relationMutation g.ownerModel g.step.field)
    (hcreation : g.creation = creation.map MutationInfo.template) :
    g.lines = ["WITH COUNT(*) AS SCOPE"] ++ g.path.mapIdx g.unwindLine ++
      (creation.map g.createLine).toList ++ [g.attachLine supplied owner target relation] := by
  have creates : g.creation.map g.creationCall = creation.map g.createLine := by
    rw [hcreation, Option.map_map]
    refine congrArg (fun f => creation.map f) (funext fun info => ?_)
    exact creationCall_eq g info
  have attaches : g.relationCall = g.attachLine supplied owner target relation := by
    unfold relationCall attachLine
    rw [text_owner g supplied owner.unique howner, text_target g target.unique htarget, hcalls,
      hrelation, variableAt_length]
  rw [lines, text_unwinds, creates, attaches]

end Group

/-! ### What the catalog says of a step -/

namespace Catalog

variable {d : Document} {c : Catalog}

/-- A path that leads from a model to a model ends with a step to that model. -/
theorem Leads.target_eq {model target : String} {path : List Step}
    (h : c.Leads model path target) : (path.getLast?.map Step.related).getD model = target := by
  induction path generalizing model with
  | nil => exact h
  | cons s rest ih =>
    rw [List.getLast?_cons, ← ih h.2]
    cases rest.getLast? <;> rfl

/-- Every step of such a path is a step of some model. -/
theorem Leads.hasStep {model target : String} {path : List Step} (h : c.Leads model path target) :
    ∀ s ∈ path, ∃ owner, c.HasStep owner s := by
  induction path generalizing model with
  | nil => exact fun s hs => absurd hs List.not_mem_nil
  | cons s rest ih =>
    intro s' hs'
    rcases List.mem_cons.1 hs' with rfl | hs'
    · exact ⟨model, h.1⟩
    · exact ih h.2 s' hs'

section

variable (hc : ofDocument d = .ok c)
include hc

/-- A step of a model is an edge of the document. -/
theorem edge_of_step {model : String} {s : Step} (h : c.HasStep model s) :
    ∃ e ∈ d.edges, e.model = model ∧ e.field = s.field ∧ e.related = s.related := by
  obtain ⟨info, hinfo, hrelated⟩ := h
  have models : c.models =
      Entries.ofList (d.models.map fun m => (m.name, ModelInfo.ofModel m)) := by
    rw [eq_of_ofDocument hc]
  obtain ⟨m, hm, rfl, rfl⟩ := mem_of_model models hinfo
  obtain ⟨f, hf, hfield, htype⟩ := mem_of_related hrelated
  obtain ⟨hf, hrelation⟩ := List.mem_filter.1 hf
  exact ⟨m.edge f, Document.mem_edges.2 ⟨m, hm, f, hf, hrelation, rfl⟩, rfl, hfield, htype⟩

theorem related_ne_empty (hnamed : d.Named) {model : String} {s : Step} (h : c.HasStep model s) :
    s.related ≠ "" := by
  obtain ⟨e, he, -, -, hrelated⟩ := edge_of_step hc h
  obtain ⟨m, hm, f, hf, -, rfl⟩ := Document.mem_edges.1 he
  have named := ((hnamed m (Document.mem_objects_of_mem_models hm)).2 f hf).2
  rintro hempty
  have typeName : f.typeName = "" := hrelated.trans hempty
  rw [typeName] at named
  exact absurd named (by decide)

/-- The mutation of an edge calls what it is called. -/
theorem template_of_edge {e : Edge} {info : MutationInfo} (h : c.mutation e.mutation = .ok info) :
    info.template.mutation = e.mutation := by
  rw [mutation_ok_iff, eq_of_ofDocument hc] at h
  obtain ⟨m, -, hentry⟩ := List.mem_flatMap.1 (Entries.mem_ofList (Entries.mem_of_get? h))
  obtain ⟨e', -, hname, rfl⟩ := mem_modelMutations_edge.1 hentry
  exact hname

end

/-- A group that is made where a path leads, for a step from there. The keys of the root
arguments matter to a group of the root alone. -/
theorem correlated_of_group (hnamed : d.Named) (hc : ofDocument d = .ok c) {T : Tour}
    (hT : T.catalog = c) {above : List Step} {owner : String} {supplied rootKeys : List String}
    {step : Step} {g : Group} (leads : c.Leads T.root above owner) (known : c.HasStep owner step)
    (root : above = [] → supplied = rootKeys) (h : T.group above owner supplied step = .ok g) :
    g.Correlated d c T.root rootKeys := by
  subst hT
  obtain ⟨ownerInfo, target, relation, creation, howner, htarget, hrelation, creates, rfl⟩ :=
    Tour.eq_of_group h
  have path : T.catalog.Leads T.root (above ++ [step]) step.related := leads.append ⟨known, rfl⟩
  have named : ∀ s ∈ above ++ [step], s.related ≠ "" := fun s hs =>
    related_ne_empty hc hnamed (path.hasStep s hs).choose_spec
  obtain ⟨e, he, hmodel, hfield, hrelated⟩ := edge_of_step hc known
  have hmutation : Names.relationMutation owner step.field = e.mutation := by
    rw [Edge.mutation, hmodel, hfield]
  have calls := template_of_edge hc (hmutation ▸ hrelation)
  -- What the group names as its owner is the model that the path leads to before the last step.
  have ownerModel : (above.getLast?.map Step.related).getD T.root = owner := leads.target_eq
  refine ⟨rfl, path, Group.nodup_variables named, ?_, e, he, ?_⟩
  · refine ⟨ownerInfo, target, relation, creation, ?_, htarget, ?_, creates, ?_⟩
    · rw [Group.ownerModel, ownerModel]
      exact howner
    · rw [Group.ownerModel, ownerModel]
      exact hrelation
    · refine Group.lines_eq ?_ rfl rfl ?_ rfl
      · cases above with
        | nil => rw [root rfl]
        | cons s rest => rfl
      · rw [Group.ownerModel, ownerModel, hmutation]
        exact calls
  · rw [Group.ownerModel, ownerModel]
    refine ⟨hmodel, hfield, hrelated, calls, fun alone => ?_⟩
    have own := hrelation.symm.trans (hmutation ▸ mutation_edge hc he alone)
    cases own
    rfl

end Catalog

/-! ### The read-back -/

namespace ReadBack

open Cypher

/-- The list that a clause introduces, if it is one that collects. -/
def introduced? : Clause → Option String
  | .collect _ list _ => some list
  | .unwind _ _ | .search _ _ _ => none

/-- A read-back of some models. -/
structure Collects (r : ReadBack) (models : List String) : Prop where
  keys : r.map Prod.fst = models
  /-- The text is a lookup for each model and what is returned. -/
  text : r.text = "\n".intercalate ((clauses [] r).map block ++ [r.query.returnText ++ "\n"])
  /-- Each lookup introduces the list of its model and carries all lists before it along. -/
  lookups : clauses [] r = r.mapIdx fun i e =>
    [.unwind e.1 (record e.1), .search (node e.1) e.1 (agreement e.1 e.2),
      .collect (node e.1) (collected e.1) ((models.take i).map collected)]
  /-- The lists are introduced in order, and none of them twice. -/
  introduced : r.query.clauses.filterMap introduced? = models.map collected
  distinct : (models.map collected).Nodup
  /-- Every list is returned under its model. -/
  returned : r.query.returned = models.map fun model => (model, collected model)

theorem clauses_eq (earlier : List String) (r : ReadBack) :
    clauses earlier r = r.mapIdx fun i e =>
      lookupClauses (earlier ++ (r.take i).map Prod.fst) e.1 e.2 := by
  induction r generalizing earlier with
  | nil => rfl
  | cons e rest ih =>
    obtain ⟨model, keys⟩ := e
    rw [clauses, ih, List.mapIdx_cons]
    refine congrArg₂ List.cons ?_ ?_
    · rw [List.take_zero, List.map_nil, List.append_nil]
    · refine congrArg (fun f => rest.mapIdx f) (funext fun i => funext fun e => ?_)
      rw [List.take_succ_cons, List.map_cons, List.append_assoc, List.singleton_append]

theorem introduced_clauses (earlier : List String) (r : ReadBack) :
    (clauses earlier r).flatten.filterMap introduced? = (r.map Prod.fst).map collected := by
  induction r generalizing earlier with
  | nil => rfl
  | cons e rest ih =>
    obtain ⟨model, keys⟩ := e
    rw [clauses, List.flatten_cons, List.filterMap_append, ih]
    rfl

/-- A read-back of models that are all different collects a list for each. -/
theorem collects {r : ReadBack} (distinct : (r.map Prod.fst).Nodup) :
    Collects r (r.map Prod.fst) where
  keys := rfl
  text := text_eq r
  lookups := by
    rw [clauses_eq]
    refine congrArg (fun f => r.mapIdx f) (funext fun i => funext fun e => ?_)
    rw [List.nil_append, List.map_take]
    rfl
  introduced := introduced_clauses [] r
  distinct := distinct.map fun _ _ => collected_injective
  returned := by
    rw [query, List.map_map]
    rfl

end ReadBack

/-! ### What compiles -/

namespace Catalog

variable {d : Document} {c : Catalog} {name : String} {values : Json.Object}
  {ids : Option IdGenerator} {drawn : Nat} {m : CompiledCreate}

theorem collects_of_compile (h : (c.compile name values ids drawn).1 = .ok (.create m)) :
    ReadBack.Collects m.readBack (m.visits.map Visit.model).eraseDups ∧
      Entries.keys m.staged = (m.visits.map Visit.model).eraseDups := by
  obtain ⟨hread, distinct, -, -⟩ := readBack_of_compile h
  obtain ⟨-, -, -, -, t, -, -, -, -, -, -, -, hvisits, hstaged⟩ := run_of_compile h
  have keys : Entries.keys m.staged = (m.visits.map Visit.model).eraseDups := by
    rw [hstaged, keys_stagedRecords, hvisits]
  have models : m.readBack.map Prod.fst = Entries.keys m.staged := by
    rw [(readBackOf_ok hread).1, List.map_map]
    rfl
  refine ⟨?_, keys⟩
  rw [← keys, ← models]
  exact ReadBack.collects (models ▸ distinct)

theorem correlated_of_mem_groups (hnamed : d.Named) (hc : ofDocument d = .ok c)
    (h : (c.compile name values ids drawn).1 = .ok (.create m)) :
    ∀ g ∈ m.groups, g.Correlated d c m.model (Entries.keys m.arguments) := by
  intro g hg
  obtain ⟨root, hroot, -, made⟩ := origins_of_compile h
  obtain ⟨v, step, reached, known, hgroup⟩ := made g hg
  refine correlated_of_group hnamed hc rfl (reached.leads m.model rfl) known (fun habove => ?_)
    hgroup
  have address : v.address = [] := List.map_eq_nil_iff.1 habove
  rcases reached.below with rfl | hbelow
  · exact hroot
  · rw [address] at hbelow
    exact absurd hbelow (Nat.lt_irrefl 0)

/-- **The variables of a compiled create mutation.** -/
theorem correlated_of_compile (hnamed : d.Named) (hc : ofDocument d = .ok c)
    (h : (c.compile name values ids drawn).1 = .ok (.create m)) :
    (∀ g ∈ m.groups, g.Correlated d c m.model (Entries.keys m.arguments)) ∧
      ReadBack.Collects m.readBack (m.visits.map Visit.model).eraseDups ∧
      Entries.keys m.staged = (m.visits.map Visit.model).eraseDups :=
  ⟨correlated_of_mem_groups hnamed hc h, collects_of_compile h⟩

theorem correlated_of_compile_friends : friends.Named ∧ ofDocument friends = .ok friendsCatalog ∧
    ∃ m : CompiledCreate,
      (friendsCatalog.compile "createPerson" friendsValues none 0).1 = .ok (.create m) ∧
        m.groups.length = 2 ∧
        (∀ g ∈ m.groups, g.Correlated friends friendsCatalog m.model
          (Entries.keys m.arguments)) ∧ ReadBack.Collects m.readBack ["Person"] := by
  have hnamed : friends.Named := by
    unfold Document.Named
    decide
  have hc : ofDocument friends = .ok friendsCatalog := rfl
  have compiled : ∃ m : CompiledCreate,
      (friendsCatalog.compile "createPerson" friendsValues none 0).1 = .ok (.create m) ∧
        m.groups.length = 2 ∧ (m.visits.map Visit.model).eraseDups = ["Person"] :=
    ⟨_, rfl, rfl, by decide⟩
  obtain ⟨m, h, groups, models⟩ := compiled
  obtain ⟨correlated, collects, -⟩ := correlated_of_compile hnamed hc h
  exact ⟨hnamed, hc, m, h, groups, correlated, models ▸ collects⟩

end Catalog

end GraphqlCypher
