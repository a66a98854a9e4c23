import GraphqlCypher.Proofs.Mutation.Staged
import GraphqlCypher.Proofs.Mutation.Variables

/-! What the calls of a compiled create mutation pass.

A call has a fixed signature: a variable that its template declares and the call does not name
fails in the database, and so does a name that is not declared. The template of a model is
written when its schema is read, from the list of its fields, and the call when a mutation is
compiled, from the properties that the catalog has of the model; a map has each key once, so
the two agree if no two fields of a model have the same name.

**Main result.** `bindsSignature_of_compile`: the call of the root passes what its template
declares, and the call that puts an edge finds both of its ends by all of their unique
properties. -/
namespace GraphqlCypher

open Schema WalkM

/-! ### What is to be passed -/

/-- The unique properties that a type declares, in order. -/
def Schema.ObjectType.uniqueProperties (t : ObjectType) : List String :=
  ((t.fields.filter Field.isStored).filter Field.isUnique).map Field.name

/-- Keys that name each unique property of a type once, and `id` in any case: in its place if
it is one of those that are declared, in front of them otherwise. -/
structure Schema.ObjectType.FoundBy (t : ObjectType) (keys : List String) : Prop where
  once : keys.Nodup
  id : Names.id ∈ keys
  ordered : keys = t.uniqueProperties ∨
    Names.id ∉ t.uniqueProperties ∧ keys = Names.id :: t.uniqueProperties

namespace CompiledCreate

/-- A variable of the root call, with its value. -/
def passed (m : CompiledCreate) (v : String) : String :=
  v ++ ": " ++ if v ∈ Entries.keys m.arguments then "\x7bvariables\x7d." ++ v else "NULL"

/-- The root call passes the variables that its template declares. -/
structure BindsSignature (d : Document) (m : CompiledCreate) : Prop where
  /-- The template takes the stored properties of the model. -/
  template : ∃ t ∈ d.models, t.name = m.model ∧ m.template = Template.createOf t
  /-- No variable is declared twice. -/
  distinct : (m.template.declared.map Prod.fst).Nodup
  /-- Those variables are passed, in their order and nothing else. -/
  keys : m.properties.map KeyBinding.key = m.template.declared.map Prod.fst
  /-- Each has its value from the arguments if they have it there. -/
  call : m.rootCall = "CALL graphql.execute('" ++ m.template.text ++ "', \x7b " ++
    ", ".intercalate (m.template.declared.map fun v => m.passed v.1) ++
    " \x7d) YIELD result AS " ++ (m.mutation ++ "Result") ++ " WITH " ++
    (m.mutation ++ "Result") ++ " AS " ++ (m.mutation ++ "Result")

end CompiledCreate

/-- The call that puts the edge of a group finds both ends by their unique properties. -/
structure Group.BindsKeys (d : Document) (supplied : List String) (g : Group) : Prop where
  /-- The ends are models, and the step is a relation from one to the other. -/
  ends : ∃ owner ∈ d.models, ∃ target ∈ d.models,
    owner.name = g.ownerModel ∧ target.name = g.step.related ∧
    (∃ f ∈ owner.fields, f.isRelation ∧ f.name = g.step.field ∧ f.typeName = target.name) ∧
    owner.FoundBy (g.owner.map KeyBinding.key) ∧ target.FoundBy (g.target.map KeyBinding.key)
  /-- The maps of the call have these keys, each with its value. -/
  call : g.relationCall = "CALL graphql.execute('" ++ g.relation.text ++ "', \x7b where: \x7b " ++
    ", ".intercalate ((g.owner.map KeyBinding.key).map (g.ownerKey supplied)) ++ " \x7d, " ++
    g.step.field ++ ": [\x7b" ++
    ", ".intercalate ((g.target.map KeyBinding.key).map g.targetKey) ++
    "\x7d] \x7d) YIELD result AS " ++ g.relation.mutation ++ g.element ++ "Result"

/-! ### Keys of bindings -/

theorem keys_rootBindings (keys supplied : List String) :
    (rootBindings keys supplied).map KeyBinding.key = keys := by
  rw [rootBindings, List.map_map]
  exact List.map_id keys

theorem keys_elementBindings (keys : List String) (element : String) :
    (elementBindings keys element).map KeyBinding.key = keys := by
  rw [elementBindings, List.map_map]
  exact List.map_id keys

/-! ### What the catalog says of a model -/

section

variable {t : ObjectType} (distinct : (t.fields.map Field.name).Nodup)
include distinct

theorem ModelInfo.foundBy_unique : t.FoundBy (ofModel t).unique := by
  refine ⟨nodup_unique distinct, id_mem_unique t, ?_⟩
  have unique : (ofModel t).unique = withId t.uniqueProperties := rfl
  rw [unique, withId]
  split
  · exact .inl rfl
  · next missing => exact .inr ⟨by simpa using missing, rfl⟩

/-- The properties of a model are the variables that its template declares. -/
theorem ModelInfo.keys_properties :
    Entries.keys (ofModel t).properties = (Template.createOf t).declared.map Prod.fst := by
  have stored : Entries.keys ((t.fields.filter Field.isStored).map fun f => (f.name, f.typeName)) =
      (t.fields.filter Field.isStored).map Field.name := by
    rw [Entries.keys, List.map_map]
    rfl
  have once : ((t.fields.filter Field.isStored).map Field.name).Nodup :=
    distinct.sublist (List.filter_sublist.map _)
  have declared : (Template.createOf t).declared.map Prod.fst =
      (t.fields.filter Field.isStored).map Field.name := by
    rw [Template.createOf, Template.declared, List.map_map, List.map_map]
    rfl
  rw [declared, ← stored]
  exact congrArg Entries.keys (Entries.ofList_eq_self (stored ▸ once))

theorem ModelInfo.nodup_declared : ((Template.createOf t).declared.map Prod.fst).Nodup := by
  rw [← keys_properties distinct]
  exact Entries.nodup_keys_ofList _

end

namespace Catalog

variable {d : Document} {c : Catalog}

/-- What creates has the template of a model. -/
theorem exists_model_of_create (hc : ofDocument d = .ok c) {name : String} {info : MutationInfo}
    (hinfo : c.mutation name = .ok info) (creates : info.action = .create) :
    ∃ t ∈ d.models, info = ⟨t.name, Template.createOf t⟩ := by
  rw [mutation_ok_iff, eq_of_ofDocument hc] at hinfo
  obtain ⟨t, ht, hentry⟩ := List.mem_flatMap.1 (Entries.mem_ofList (Entries.mem_of_get? hinfo))
  refine ⟨t, ht, ?_⟩
  rcases List.mem_append.1 hentry with hentry | hentry
  · split at hentry
    · cases List.mem_singleton.1 hentry
      rfl
    · cases hentry
  · obtain ⟨f, -, e⟩ := List.mem_map.1 hentry
    cases e
    cases creates

/-- The properties of a root call, which name what the root arguments have at the end: a walk
leaves their keys as they are. -/
theorem properties_of_compileRoot {name : String} {info : MutationInfo} {data : Json.Object}
    {ids : Option IdGenerator} {s u : WalkState} {m : CompiledCreate}
    (h : Ends (c.compileRoot name info data ids) s m u) :
    ∃ root, c.model info.model = .ok root ∧
      m.properties = rootBindings (Entries.keys root.properties) (Entries.keys m.arguments) := by
  simp only [compileRoot, ends_bind, ends_lift, ends_get, ends_pure] at h
  obtain ⟨new, _, -, root, _, ⟨hroot, rfl⟩, out, _, hwalk, h⟩ := h
  obtain ⟨_, _, -, _, _, -, rfl, -⟩ := h
  obtain ⟨_, -, kept, -⟩ := Tour.visit_ends hwalk
  refine ⟨root, hroot, ?_⟩
  show rootBindings _ _ = rootBindings _ _
  rw [kept.keys]

/-- The bindings of an owner and of a target, given the keys that they are made from. -/
theorem keys_of_group {T : Tour} {above : List Step} {owner : String} {supplied : List String}
    {step : Step} {g : Group} (h : T.group above owner supplied step = .ok g) :
    ∃ ownerInfo target, T.catalog.model owner = .ok ownerInfo ∧
      T.catalog.model step.related = .ok target ∧
      g.owner.map KeyBinding.key = ownerInfo.unique ∧
      g.target.map KeyBinding.key = target.unique ∧
      bindingsText g.owner = ", ".intercalate (ownerInfo.unique.map (g.ownerKey supplied)) ∧
      bindingsText g.target = ", ".intercalate (target.unique.map g.targetKey) := by
  obtain ⟨ownerInfo, target, relation, creation, howner, htarget, -, -, rfl⟩ := Tour.eq_of_group h
  refine ⟨ownerInfo, target, howner, htarget, ?_, keys_elementBindings _ _,
    Group.text_owner _ supplied _ rfl, Group.text_target _ _ rfl⟩
  show List.map _ (if _ then _ else _) = _
  split
  · exact keys_rootBindings _ _
  · exact keys_elementBindings _ _

/-- A group that is made where a path leads, for a step from there. The keys of the root
arguments matter to a group of the root alone. -/
theorem bindsKeys_of_group (hc : ofDocument d = .ok c)
    (distinct : ∀ t ∈ d.models, (t.fields.map Field.name).Nodup) {T : Tour} (hT : T.catalog = c)
    {above : List Step} {owner : String} {supplied rootKeys : List String} {step : Step}
    {g : Group} (leads : c.Leads T.root above owner) (known : c.HasStep owner step)
    (root : above = [] → supplied = rootKeys) (h : T.group above owner supplied step = .ok g) :
    g.BindsKeys d rootKeys := by
  subst hT
  have models := congrArg Catalog.models (eq_of_ofDocument hc)
  obtain ⟨ownerInfo, targetInfo, howner, htarget, ownerKeys, targetKeys, ownerText, targetText⟩ :=
    keys_of_group h
  obtain ⟨rfl, hstep, -⟩ := Tour.group_ok h
  have hroot : g.root = T.root := by
    obtain ⟨_, _, _, _, -, -, -, -, hg⟩ := Tour.eq_of_group h
    rw [hg]
  have ownerModel : g.ownerModel = owner := by
    rw [Group.ownerModel, hroot, leads.target_eq]
  subst hstep
  refine ⟨?_, ?_⟩
  · obtain ⟨info, hinfo, hrelated⟩ := known
    obtain rfl := Except.ok.inj (howner.symm.trans hinfo)
    obtain ⟨owner, ho, rfl, rfl⟩ := mem_of_model models howner
    obtain ⟨target, ht, named, rfl⟩ := mem_of_model models htarget
    obtain ⟨f, hf, hfield, htype⟩ := mem_of_related hrelated
    obtain ⟨hf, hrelation⟩ := List.mem_filter.1 hf
    refine ⟨owner, ho, target, ht, ownerModel.symm, named,
      ⟨f, hf, hrelation, hfield, htype.trans named.symm⟩, ?_, ?_⟩
    · rw [ownerKeys]
      exact ModelInfo.foundBy_unique (distinct owner ho)
    · rw [targetKeys]
      exact ModelInfo.foundBy_unique (distinct target ht)
  · have bound : g.ownerKey supplied = g.ownerKey rootKeys := by
      funext k
      by_cases habove : g.above = []
      · rw [root habove]
      · have other : ∀ keys : List String, ¬ (g.above = [] ∧ k ∉ keys) := fun keys h => habove h.1
        rw [Group.ownerKey, Group.ownerKey, if_neg (other supplied), if_neg (other rootKeys)]
    unfold Group.relationCall
    rw [ownerText, targetText, ownerKeys, targetKeys, bound]

section

variable {name : String} {values : Json.Object} {ids : Option IdGenerator} {drawn : Nat}
  {m : CompiledCreate} (hc : ofDocument d = .ok c)
  (distinct : ∀ t ∈ d.models, (t.fields.map Field.name).Nodup)
  (h : (c.compile name values ids drawn).1 = .ok (.create m))
include hc distinct h

theorem signature_of_compile : m.BindsSignature d := by
  obtain ⟨info, data, u, hinfo, creates, -, ends⟩ := root_of_compile h
  obtain ⟨t, ht, rfl⟩ := exists_model_of_create hc hinfo creates
  obtain ⟨root, hroot, properties⟩ := properties_of_compileRoot ends
  obtain rfl := Except.ok.inj ((model_ofDocument hc ht).symm.trans hroot)
  have model : m.model = t.name := (compileRoot_ends ends).1
  have template : m.template = Template.createOf t := (rootCall_of_compileRoot ends).2.1
  have bindings : m.properties = rootBindings (m.template.declared.map Prod.fst)
      (Entries.keys m.arguments) := by
    rw [properties, ModelInfo.keys_properties (distinct t ht), template]
  refine ⟨⟨t, ht, model.symm, template⟩, ?_, ?_, ?_⟩
  · rw [template]
    exact ModelInfo.nodup_declared (distinct t ht)
  · rw [bindings, keys_rootBindings]
  · have texts : m.properties.map KeyBinding.text =
        m.template.declared.map fun v => m.passed v.1 := by
      rw [bindings, rootBindings, List.map_map, List.map_map]
      refine List.map_congr_left fun v _ => ?_
      by_cases hv : v.1 ∈ Entries.keys m.arguments
      · rw [CompiledCreate.passed, if_pos hv, Function.comp, Function.comp,
          if_pos (List.contains_iff_mem.2 hv), KeyBinding.text]
      · rw [CompiledCreate.passed, if_neg hv, Function.comp, Function.comp,
          if_neg fun h => hv (List.contains_iff_mem.1 h), KeyBinding.text]
    unfold CompiledCreate.rootCall bindingsText
    rw [texts]

/-- **What the calls of a compiled create mutation pass.** -/
theorem bindsSignature_of_compile :
    m.BindsSignature d ∧ ∀ g ∈ m.groups, g.BindsKeys d (Entries.keys m.arguments) := by
  refine ⟨signature_of_compile hc distinct h, fun g hg => ?_⟩
  obtain ⟨root, hroot, -, made⟩ := origins_of_compile h
  obtain ⟨v, step, reached, known, hgroup⟩ := made g hg
  refine bindsKeys_of_group hc distinct rfl (reached.leads m.model rfl) known (fun habove => ?_)
    hgroup
  have address : v.address = [] := List.map_eq_nil_iff.1 habove
  rcases reached.below with rfl | hbelow
  · exact hroot
  · rw [address] at hbelow
    exact absurd hbelow (Nat.lt_irrefl 0)

end

theorem bindsSignature_of_compile_friends :
    ∃ m : CompiledCreate, (friendsCatalog.compile "createPerson" friendsValues
        (some (.counting "n" none)) 0).1 = .ok (.create m) ∧ m.groups.length = 2 ∧
      Names.id ∈ Entries.keys m.arguments ∧ m.BindsSignature friends ∧
      ∀ g ∈ m.groups, g.BindsKeys friends (Entries.keys m.arguments) := by
  have hc : ofDocument friends = .ok friendsCatalog := rfl
  have distinct : ∀ t ∈ friends.models, (t.fields.map Field.name).Nodup := by decide
  have compiled : ∃ m : CompiledCreate, (friendsCatalog.compile "createPerson" friendsValues
      (some (.counting "n" none)) 0).1 = .ok (.create m) ∧ m.groups.length = 2 ∧
      Names.id ∈ Entries.keys m.arguments := ⟨_, rfl, rfl, by decide⟩
  obtain ⟨m, h, groups, hid⟩ := compiled
  obtain ⟨signature, keys⟩ := bindsSignature_of_compile hc distinct h
  exact ⟨m, h, groups, hid, signature, keys⟩

end Catalog

end GraphqlCypher
