import GraphqlCypher.Proofs.Augment.Inputs
import GraphqlCypher.Proofs.Catalog.Creates
import GraphqlCypher.Proofs.Mutation.Endow
import GraphqlCypher.Proofs.Mutation.Refusal

/-! What a published schema admits compiles.

A document that is augmented publishes inputs for its mutations, and its catalog compiles
what is sent for them. The step that carries the proof is that an object which is admitted
as the input of a model supplies under each relation nothing but admitted objects, of
models that are known (`Publishes.admits_branch`). So of all the failures for which
arguments may give cause, two are left: that objects are nested too deep, and that a model
is to be created whose mutation the document declares without the binding's mark.

A value by which an object is looked up is not walked over with the same care: the input
takes every field marked unique, a relation as well, and what such a relation supplies may
lead anywhere (`not_compiles_tagged`).

**Main result.** `compiles_of_admits`. -/
namespace GraphqlCypher

open Schema

namespace Schema

/-- What is asked of a document: the fields of a model differ in their names, no model is
a root, no declared type has a generated name, and no mutation is named for a model. -/
structure Document.Publishable (d : Document) : Prop where
  distinct : ∀ m ∈ d.models, (m.fields.map Field.name).Nodup
  roots : d.RootsApart
  names : d.NamesFree
  mutations : ∀ t, d.lastObject? Names.mutation = some t →
    ∀ m ∈ d.models, m.name ∉ t.fields.map Field.name

/-! ### Relations among the fields of the create input -/

namespace Scope

variable {S : Scope} {m : ObjectType} (hdistinct : (m.fields.map Field.name).Nodup)
include hdistinct

/-- The create input takes a relation by the input for its arity, and only if it leads to
a model. -/
theorem createInput_relation {f : InputValue} (hf : f ∈ (S.createInput m).fields) {g : Field}
    (hg : g ∈ m.fields) (hname : f.name = g.name) (hrelation : g.isRelation = true) :
    S.leadsToModel g = true ∧
      f.type = .named (Names.createNestedInput g.typeName (.of g.type.isList)) := by
  obtain ⟨g', hg', hf⟩ := List.mem_filterMap.1 hf
  have hname' : f.name = g'.name := by
    unfold createField? at hf
    split at hf
    · cases hf
    · split at hf
      · split at hf <;> cases hf
        rfl
      · split at hf <;> cases hf
        rfl
  have same : g' = g :=
    List.inj_on_of_nodup_map hdistinct hg' hg (hname'.symm.trans hname)
  subst same
  unfold createField? at hf
  split at hf
  · cases hf
  · split at hf
    · next hleads =>
      cases hf
      exact ⟨hleads, rfl⟩
    · cases hf

omit hdistinct in
/-- A relation of a model as the catalog has it is a relation of the model that was
prepared. -/
theorem exists_of_related {field related : String}
    (h : (ModelInfo.ofModel (S.remade m)).related? field = some related) :
    ∃ g ∈ m.fields, g.isRelation = true ∧ g.name = field ∧ g.typeName = related := by
  obtain ⟨f, hf, rfl, rfl⟩ := Catalog.mem_of_related h
  obtain ⟨hf, hrelation⟩ := List.mem_filter.1 hf
  unfold remade at hf
  split at hf
  · exact ⟨f, hf, hrelation, rfl, rfl⟩
  · rcases List.mem_append.1 hf with hf | hf
    · obtain ⟨g, hg, rfl⟩ := List.mem_map.1 hf
      obtain ⟨arguments, hrebuilt⟩ := S.rebuildField_eq g
      rw [hrebuilt] at hrelation ⊢
      exact ⟨g, hg, hrelation, rfl, rfl⟩
    · split at hf
      · cases hf
      · rw [List.mem_singleton.1 hf] at hrelation
        cases hrelation

end Scope

end Schema

/-! ### A document and its catalog -/

/-- A catalog of what a document publishes, by way of a scope that prepares it. -/
structure Publishes (d : Document) (S : Scope) (c : Catalog) : Prop where
  publishable : d.Publishable
  prepares : d.Prepares {} S
  catalog : Catalog.ofDocument (S.document.extend S) = .ok c

namespace Publishes

variable {d : Document} {S : Scope} {c : Catalog} (h : Publishes d S c)
include h

theorem isLocal : S.options.remote = false := by
  rw [h.prepares.options]

theorem distinct : ∀ m ∈ S.document.models, (m.fields.map Field.name).Nodup := by
  intro m hm
  rw [h.prepares.models_eq] at hm
  obtain ⟨u, hu, rfl⟩ := List.mem_map.1 hm
  exact u.nodup_normalized {} (h.publishable.distinct u hu)

/-- Every model gets its mutations and its inputs. -/
theorem generatesMutations {m : ObjectType} (hm : m ∈ S.document.models) :
    S.generatesMutations m = true := by
  have hroot := h.prepares.lastObject?_mutation h.publishable.roots rfl
  rw [h.prepares.indexed.generatesMutations_iff hroot, h.prepares.options]
  refine ⟨rfl, ?_⟩
  rw [h.prepares.models_eq] at hm
  obtain ⟨u, hu, rfl⟩ := List.mem_map.1 hm
  rw [u.normalized_name]
  cases ht : d.lastObject? Names.mutation with
  | none => exact List.not_mem_nil
  | some t => exact h.publishable.mutations t ht u hu

theorem models_eq : (S.document.extend S).models = S.document.models.map S.remade :=
  h.prepares.indexed.models_extend (h.prepares.rootsApart h.publishable.roots)

theorem remade_mem {m : ObjectType} (hm : m ∈ S.document.models) :
    S.remade m ∈ (S.document.extend S).models := by
  rw [h.models_eq]
  exact List.mem_map_of_mem hm

/-- The catalog knows every model as it was rebuilt. -/
theorem model {m : ObjectType} (hm : m ∈ S.document.models) :
    c.model m.name = .ok (.ofModel (S.remade m)) := by
  rw [← S.remade_name m]
  exact Catalog.model_ofDocument h.catalog (h.remade_mem hm)

theorem exists_declared {name : String} (hname : name ∈ S.document.models.map ObjectType.name) :
    ∃ m ∈ d.models, m.name = name := by
  obtain ⟨m, hm, rfl⟩ := List.mem_map.1 hname
  rw [h.prepares.models_eq] at hm
  obtain ⟨u, hu, rfl⟩ := List.mem_map.1 hm
  exact ⟨u, hu, (u.normalized_name {}).symm⟩

/-- Only a mutation without the binding's mark is missing among those that create. -/
theorem mem_generatedNames_iff {name : String}
    (hname : name ∈ S.document.models.map ObjectType.name) :
    Names.createMutation name ∈ Catalog.generatedNames (S.document.extend S) ↔
      ¬ d.Unmarked name := by
  obtain ⟨u, hu, rfl⟩ := h.exists_declared hname
  exact h.prepares.mem_generatedNames_iff h.publishable.roots rfl rfl hu
    fun t ht => h.publishable.mutations t ht u hu

theorem mutation_create {name : String} (hname : name ∈ S.document.models.map ObjectType.name)
    (hmarked : ¬ d.Unmarked name) : ∃ info, c.mutation (Names.createMutation name) = .ok info ∧
      info.action = .create ∧ info.model = name := by
  have hgenerated := (h.mem_generatedNames_iff hname).2 hmarked
  obtain ⟨m, hm, rfl⟩ := List.mem_map.1 hname
  rw [← S.remade_name m] at hgenerated ⊢
  exact ⟨_, Catalog.mutation_create h.catalog (h.remade_mem hm) hgenerated, rfl, rfl⟩

theorem mutation_unmarked {name : String} (hname : name ∈ S.document.models.map ObjectType.name)
    (hunmarked : d.Unmarked name) :
    c.mutation (Names.createMutation name) =
      .error (.unknownMutation (Names.createMutation name)) := by
  apply Catalog.mutation_create_none h.catalog
  rw [h.mem_generatedNames_iff hname, not_not]
  exact hunmarked

/-! ### Admitted objects -/

/-- A generated input is declared, and it alone has its name. -/
theorem declares {m : ObjectType} (hm : m ∈ S.document.models) {k : TypeKind} {i : InputType}
    (hi : S.generated k m = .input i) : i ∈ (S.document.extend S).inputs ∧
      ∀ j ∈ (S.document.extend S).inputs, j.name = i.name → j = i := by
  have hfree := h.prepares.free_of_namesFree h.publishable.names hm k
  have hmem := Scope.generated_mem_types h.isLocal (h.generatesMutations hm) k
  refine ⟨h.prepares.mem_inputs hm hmem hfree hi, fun j hj hname => ?_⟩
  have hkind : i.name = k.name m.name := by
    rw [← S.generated_name k, hi]
    rfl
  have same := h.prepares.eq_of_input hj hm hfree (hname.trans hkind)
  exact TypeDefinition.input.inj (same.trans hi)

/-- What an admitted object supplies is made of admitted objects of known models. -/
theorem admits_branch {model : String} (hmodel : model ∈ S.document.models.map ObjectType.name)
    {info : ModelInfo} (hinfo : c.model model = .ok info) {arguments : Json.Object}
    (admits : (S.document.extend S).Admits (.named (Names.createInput model)) (.object arguments))
    {step : Step} {v : Json} (hbranch : (step, v) ∈ info.branches arguments) :
    step.related ∈ S.document.models.map ObjectType.name ∧
      ∀ w ∈ v.elements, ∃ o, w = .object o ∧ (step.action = .create →
        (S.document.extend S).Admits (.named (Names.createInput step.related)) (.object o)) := by
  obtain ⟨m, hm, rfl⟩ := List.mem_map.1 hmodel
  cases (h.model hm).symm.trans hinfo
  obtain ⟨hrelated, nested, hnested, hgiven⟩ := ModelInfo.mem_branches_iff.1 hbranch
  obtain ⟨g, hg, hrelation, hfield, htype⟩ := Scope.exists_of_related hrelated
  -- The create input of the model takes the relation by a nested input of its target.
  obtain ⟨declared, only⟩ := h.declares hm (k := .createInput) rfl
  obtain ⟨f, hf, hname, admits⟩ := admits.fields declared only _ hnested
  obtain ⟨hleads, hlink⟩ :=
    Scope.createInput_relation (h.distinct m hm) hf hg (hname.trans hfield.symm) hrelation
  obtain ⟨r, hr, hsame⟩ := h.prepares.indexed.exists_of_leadsToModel hleads
  rw [hlink, ← hsame] at admits
  rw [← htype, ← hsame]
  refine ⟨List.mem_map_of_mem hr, ?_⟩
  -- That takes the input of the target for each of the two actions.
  obtain ⟨declared, only⟩ := h.declares hr (k := .createNested (.of g.type.isList)) rfl
  obtain ⟨hget, given⟩ := NestedAction.given?_eq_some.1 hgiven
  obtain ⟨f, hf, hname, admits⟩ := admits.fields declared only _ (Entries.mem_of_get? hget)
  simp only [List.mem_cons, List.not_mem_nil, or_false] at hf
  have apart : "create" ≠ "connect" := by decide
  cases haction : step.action with
  | create =>
    rw [haction] at hname
    rcases hf with rfl | rfl
    · obtain ⟨declared, -⟩ := h.declares hr (k := .createInput) rfl
      intro w hw
      obtain ⟨o, rfl, admits⟩ := admits.elements declared given w hw
      exact ⟨o, rfl, fun _ => admits⟩
    · exact absurd hname.symm apart
  | connect =>
    rw [haction] at hname
    rcases hf with rfl | rfl
    · exact absurd hname apart
    · obtain ⟨declared, -⟩ := h.declares hr (k := .whereUniqueInput) rfl
      intro w hw
      obtain ⟨o, rfl, -⟩ := admits.elements declared given w hw
      exact ⟨o, rfl, fun e => by cases e⟩

end Publishes

/-! ### What may be sent -/

namespace Catalog

/-- The objects in the arguments of a create mutation, one level further than a walk
may go. -/
def reach (c : Catalog) (model : String) (data : Json.Object) : List Visit :=
  visitsOf (c.events (maxNesting + 2) [] model data)

/-- The steps that a visited object supplies, in order. -/
def steps (c : Catalog) (v : Visit) : List Step :=
  match c.model v.model with
  | .ok info => (info.branches v.arguments).map Prod.fst
  | .error _ => []

def leadsToMany (c : Catalog) (model field : String) : Bool :=
  match c.model model with
  | .ok info => info.isToMany field
  | .error _ => false

/-- Arguments keep to what no schema states: they are not nested too deep, and only a
relation to many both creates and connects. -/
structure Bounded (c : Catalog) (model : String) (data : Json.Object) : Prop where
  shallow : ∀ w ∈ c.reach model data, w.address.length ≤ maxNesting
  arity : ∀ w ∈ c.reach model data, ∀ step ∈ c.steps w, step.action = .create →
    { step with action := .connect } ∈ c.steps w → c.leadsToMany w.model step.field = true

/-- And what is connected supplies nothing. -/
structure Orderly (c : Catalog) (model : String) (data : Json.Object) : Prop extends
    c.Bounded model data where
  connected : ∀ w ∈ c.reach model data, w.isCreated = false → c.steps w = []

/-- Somewhere in the arguments a model is to be created, though perhaps no object of it. -/
def Creates (c : Catalog) (model : String) (data : Json.Object) (related : String) : Prop :=
  ∃ w ∈ c.reach model data, ∃ step ∈ c.steps w, step.action = .create ∧ step.related = related

variable {c : Catalog}

theorem mem_steps_iff {v : Visit} {info : ModelInfo} (hinfo : c.model v.model = .ok info)
    {step : Step} : step ∈ c.steps v ↔ ∃ w, (step, w) ∈ info.branches v.arguments := by
  rw [steps, hinfo]
  simp

/-- An object of a known model is the first that is reached from it. -/
theorem mem_visitsOf_self {levels : Nat} {address : List Pick} {model : String}
    {arguments : Json.Object} {info : ModelInfo} (hinfo : c.model model = .ok info) :
    ⟨address, model, arguments⟩ ∈ visitsOf (c.events (levels + 1) address model arguments) :=
  mem_visitsOf.2 (mem_events_iff.2 ⟨info, hinfo, .inl rfl⟩)

/-- What is reached from an object under a relation is reached by way of the relation. -/
theorem mem_visitsOf_branch {levels : Nat} {address : List Pick} {model : String}
    {arguments : Json.Object} {info : ModelInfo} (hinfo : c.model model = .ok info) {step : Step}
    {v : Json} (hbranch : (step, v) ∈ info.branches arguments) {o : Json.Object} {i : Nat}
    (hi : v.elements[i]? = some (.object o)) {w : Visit}
    (hw : w ∈ visitsOf (c.events levels (address ++ [⟨step, i⟩]) step.related o)) :
    w ∈ visitsOf (c.events (levels + 1) address model arguments) :=
  mem_visitsOf.2 (mem_events_iff.2 ⟨info, hinfo, .inr ⟨step, v, hbranch,
    .inr ⟨o, i, List.mk_mem_zipIdx_iff_getElem?.2 hi, mem_visitsOf.1 hw⟩⟩⟩)

/-- Bounded arguments do not both create and connect under a relation to one. -/
theorem Bounded.leadsToMany {root : String} {data : Json.Object} (bounded : c.Bounded root data)
    {w : Visit} (hw : w ∈ c.reach root data) {info : ModelInfo}
    (hinfo : c.model w.model = .ok info) {field related : String} {nested : Json.Object}
    (hnested : (field, Json.object nested) ∈ w.arguments)
    (hrelated : info.related? field = some related)
    (given : ∀ a : NestedAction, (a.given? nested).isSome = true) : info.isToMany field = true := by
  have both : ∀ a : NestedAction, ⟨field, a, related⟩ ∈ c.steps w := by
    intro a
    obtain ⟨v, hv⟩ := Option.isSome_iff_exists.1 (given a)
    exact (mem_steps_iff hinfo).2 ⟨v, ModelInfo.mem_branches_iff.2 ⟨hrelated, nested, hnested, hv⟩⟩
  have hmany := bounded.arity w hw _ (both .create) rfl (both .connect)
  rwa [Catalog.leadsToMany, hinfo] at hmany

/-- An object that is valid has nothing but valid objects below it. -/
theorem Valid.of_mem {levels : Nat} :
    ∀ {depth : Nat} {address : List Pick} {model : String} {arguments : Json.Object},
      c.Valid depth model arguments →
      ∀ w ∈ visitsOf (c.events levels address model arguments), ∃ depth,
        c.Valid depth w.model w.arguments := by
  induction levels with
  | zero => exact fun _ w hw => absurd hw List.not_mem_nil
  | succ levels ih =>
    intro depth address model arguments hvalid w hw
    obtain ⟨info, hinfo, h | ⟨step, v, hbranch, h | ⟨o, i, ho, he⟩⟩⟩ :=
      mem_events_iff.1 (mem_visitsOf.1 hw)
    · cases h
      exact ⟨depth, hvalid⟩
    · cases h
    · obtain ⟨-, info', hinfo', relations⟩ := (c.valid_iff depth model arguments).1 hvalid
      cases hinfo.symm.trans hinfo'
      obtain ⟨hrelated, nested, hnested, hgiven⟩ := ModelInfo.mem_branches_iff.1 hbranch
      obtain ⟨-, helements⟩ := (relations _ _ _ hnested hrelated).2 _ _ hgiven
      have held := List.mem_of_getElem? (List.mk_mem_zipIdx_iff_getElem?.1 ho)
      obtain ⟨o', heq, hvalid⟩ := helements _ held
      cases heq
      exact ih hvalid w (mem_visitsOf.2 he)

end Catalog

namespace Publishes

variable {d : Document} {S : Scope} {c : Catalog} (h : Publishes d S c)
include h

/-- Orderly arguments that are admitted give cause for one kind of failure. -/
theorem exists_unmarked {root : String} {data : Json.Object} (orderly : c.Orderly root data)
    {e : Failure} {levels : Nat} :
    ∀ (address : List Pick) (model : String) (arguments : Json.Object),
      levels + address.length = maxNesting + 1 →
      (∀ w ∈ visitsOf (c.events (levels + 1) address model arguments), w ∈ c.reach root data) →
      model ∈ S.document.models.map ObjectType.name →
      (Visit.isCreated ⟨address, model, arguments⟩ = true →
        (S.document.extend S).Admits (.named (Names.createInput model)) (.object arguments)) →
      c.Refused levels model arguments e →
      ∃ related, c.Creates root data related ∧ d.Unmarked related ∧
        e = .unknownMutation (Names.createMutation related) := by
  induction levels with
  | zero =>
    intro address model arguments hlength reached hmodel _ _
    obtain ⟨m, hm, rfl⟩ := List.mem_map.1 hmodel
    have shallow := orderly.shallow _ (reached _ (Catalog.mem_visitsOf_self (h.model hm)))
    simp only at shallow
    omega
  | succ levels ih =>
    intro address model arguments hlength reached hmodel admits refused
    obtain ⟨m, hm, hsame⟩ := List.mem_map.1 hmodel
    have hinfo := h.model hm
    rw [hsame] at hinfo
    have self := reached _ (Catalog.mem_visitsOf_self hinfo)
    rcases refused with hunknown | ⟨info, hinfo', refused⟩
    · cases hinfo.symm.trans hunknown
    cases hinfo.symm.trans hinfo'
    rcases refused with ⟨field, related, nested, hnested, hrelated, given, hone, -⟩ |
      ⟨step, v, hbranch, refused⟩
    · cases hone.symm.trans (orderly.leadsToMany self hinfo hnested hrelated given)
    have supplies : step ∈ c.steps ⟨address, model, arguments⟩ :=
      (Catalog.mem_steps_iff hinfo).2 ⟨v, hbranch⟩
    have created : Visit.isCreated ⟨address, model, arguments⟩ = true := by
      by_contra hconnected
      rw [orderly.connected _ self (Bool.eq_false_iff.2 hconnected)] at supplies
      cases supplies
    obtain ⟨hrelated, hobjects⟩ := h.admits_branch hmodel hinfo (admits created) hbranch
    rcases refused with (hunknown | ⟨haction, hcreate⟩) | ⟨w, hw, ⟨hother, -⟩ | ⟨o, rfl, refused⟩⟩
    · obtain ⟨r, hr, hsame⟩ := List.mem_map.1 hrelated
      rw [← hsame, h.model hr] at hunknown
      cases hunknown
    · by_cases hunmarked : d.Unmarked step.related
      · cases (h.mutation_unmarked hrelated hunmarked).symm.trans hcreate
        exact ⟨_, ⟨_, self, step, supplies, haction, rfl⟩, hunmarked, rfl⟩
      · obtain ⟨info, hcreation, -⟩ := h.mutation_create hrelated hunmarked
        cases hcreation.symm.trans hcreate
    · obtain ⟨o, rfl, -⟩ := hobjects w hw
      exact absurd rfl (hother o)
    · obtain ⟨o', heq, hadmits⟩ := hobjects _ hw
      cases heq
      obtain ⟨i, hi⟩ := List.mem_iff_getElem?.1 hw
      refine ih (address ++ [⟨step, i⟩]) _ _ ?_
        (fun w hw => reached w (Catalog.mem_visitsOf_branch hinfo hbranch hi hw)) hrelated ?_
        refused
      · rw [List.length_append, List.length_singleton]
        omega
      · intro hcreated
        exact hadmits (by simpa [Visit.isCreated] using hcreated)

/-- What the catalog knows is a model of the document. -/
theorem mem_of_model {name : String} {info : ModelInfo} (hinfo : c.model name = .ok info) :
    name ∈ S.document.models.map ObjectType.name := by
  have hmodels := congrArg Catalog.models (Catalog.eq_of_ofDocument h.catalog)
  obtain ⟨m, hm, rfl, -⟩ := Catalog.mem_of_model hmodels hinfo
  rw [h.models_eq] at hm
  obtain ⟨u, hu, rfl⟩ := List.mem_map.1 hm
  rw [S.remade_name]
  exact List.mem_map_of_mem hu

/-- Valid arguments create nothing whose mutation lacks its mark. -/
theorem not_unmarked_of_valid {root related : String} {data : Json.Object}
    (hvalid : c.Valid 0 root data) (hcreates : c.Creates root data related) :
    ¬ d.Unmarked related := by
  obtain ⟨w, hw, step, hstep, haction, rfl⟩ := hcreates
  obtain ⟨depth, hvalid⟩ := hvalid.of_mem w hw
  obtain ⟨-, info, hinfo, relations⟩ := (c.valid_iff _ _ _).1 hvalid
  obtain ⟨v, hbranch⟩ := (Catalog.mem_steps_iff hinfo).1 hstep
  obtain ⟨hrelated, nested, hnested, hgiven⟩ := ModelInfo.mem_branches_iff.1 hbranch
  obtain ⟨⟨⟨target, htarget⟩, hcreate⟩, -⟩ := (relations _ _ _ hnested hrelated).2 _ v hgiven
  obtain ⟨info, hcreation⟩ := hcreate haction
  intro hunmarked
  cases hcreation.symm.trans (h.mutation_unmarked (h.mem_of_model htarget) hunmarked)

end Publishes

/-- **What a published schema admits compiles.** Orderly arguments that are admitted as the
input of a generated create mutation compile, unless a model is to be created in them whose
mutation the document declares without the binding's mark; then such a mutation is unknown. -/
theorem compiles_of_admits {d l : Document} {c : Catalog} (hd : d.Publishable)
    (hl : d.augment {} = .ok l) (hc : Catalog.ofDocument l = .ok c) {model : String}
    (hmodel : model ∈ d.models.map ObjectType.name)
    (hgenerated : c.isGenerated (Names.createMutation model) = true) {data : Json.Object}
    (hadmits : l.Admits (.named (Names.createInput model)) (.object data))
    (horderly : c.Orderly model data) {ids : Option IdGenerator} (hids : ∀ g ∈ ids, g.Endless)
    (drawn : Nat) :
    let outcome := (c.compile (Names.createMutation model) [("data", .object data)] ids drawn).1
    ((∃ related, c.Creates model data related ∧ d.Unmarked related) →
      ∃ related, c.Creates model data related ∧ d.Unmarked related ∧
        outcome = .error (.unknownMutation (Names.createMutation related))) ∧
    ((∀ related, c.Creates model data related → ¬ d.Unmarked related) →
      ∃ compiled, outcome = .ok compiled) := by
  intro outcome
  obtain ⟨m, hm, rfl⟩ := List.mem_map.1 hmodel
  have hsome : d.models ≠ [] := List.ne_nil_of_mem hm
  obtain ⟨S, hS, rfl⟩ := (Document.prepares_of_augment hl).resolve_left fun h => hsome h.1
  have h : Publishes d S c := ⟨hd, hS, hc⟩
  have hname : m.name ∈ S.document.models.map ObjectType.name := by
    rw [hS.models_eq, List.map_map]
    exact List.mem_map.2 ⟨m, hm, m.normalized_name {}⟩
  have hmarked : ¬ d.Unmarked m.name := by
    have hmem := List.contains_iff_mem.1 hgenerated
    rw [Catalog.eq_of_ofDocument hc] at hmem
    exact (h.mem_generatedNames_iff hname).1 hmem
  obtain ⟨info, hinfo, haction, hmodel⟩ := h.mutation_create hname hmarked
  have houtcome : outcome = ((c.compileRoot (Names.createMutation m.name) info data ids).run.run
      { drawn }).1.map CompiledMutation.create :=
    Catalog.compile_of_data hgenerated hinfo haction rfl
  have hrelations := Catalog.hasRelations_ofDocument hc
  rcases hrun : (c.compileRoot (Names.createMutation m.name) info data ids).run.run { drawn }
    with ⟨e | compiled, u⟩
  · have refused := Catalog.refused_of_compile hrelations hids hrun
    rw [hmodel] at refused
    obtain ⟨related, hcreates, hunmarked, rfl⟩ := h.exists_unmarked horderly [] m.name data rfl
      (fun w hw => hw) hname (fun _ => hadmits) refused
    refine ⟨fun _ => ⟨related, hcreates, hunmarked, ?_⟩, fun hnone => ?_⟩
    · rw [houtcome, hrun]
      rfl
    · exact absurd hunmarked (hnone related hcreates)
  · have hcompiled : outcome = .ok (.create compiled) := by
      rw [houtcome, hrun]
      rfl
    refine ⟨fun hunmarked => ?_, fun _ => ⟨_, hcompiled⟩⟩
    obtain ⟨related, hcreates, hunmarked⟩ := hunmarked
    have hvalid := (Catalog.exists_compileRoot_iff hrelations hids _ info data drawn).1
      ⟨_, houtcome.symm.trans hcompiled⟩
    rw [hmodel] at hvalid
    exact absurd hunmarked (h.not_unmarked_of_valid hvalid hcreates)

/-! ### People with tags and pets -/

/-- People who know each other and own pets, each perhaps with a tag, which is no model;
pets are created by a mutation without the binding's mark. -/
def tagged : Document :=
  let relation (name : String) : Directive :=
    ⟨Names.relation, [("name", .string name), ("direction", .enum "OUT")]⟩
  [.type (.scalar { name := "JSON" }),
   .type (.object {
    name := "Person"
    directives := [Directive.bare Names.model]
    fields := [
      { name := "name", type := .named "String" },
      { name := "tag", type := .named "JSON"
        directives := [relation "TAG", Directive.bare Names.unique] },
      { name := "friends", type := .list (.named "Person"), directives := [relation "KNOWS"] },
      { name := "pets", type := .list (.named "Pet"), directives := [relation "OWNS"] }] }),
   .type (.object {
    name := "Pet"
    directives := [Directive.bare Names.model]
    fields := [{ name := "name", type := .named "String" }] }),
   .type (.object {
    name := Names.mutation
    fields := [{ name := "createPet", type := .named "Pet" }] })]

theorem publishable_tagged : tagged.Publishable where
  distinct := by decide
  roots := by
    unfold Document.RootsApart
    decide
  names := by
    have each : ∀ m ∈ tagged.models, ∀ k ∈ TypeKind.all, k.name m.name ∉ tagged.typeNames := by
      decide
    exact fun m hm k => each m hm k k.mem_all
  mutations := by
    intro t ht
    cases ht
    decide

theorem unmarked_tagged_iff {related : String} : tagged.Unmarked related ↔ related = "Pet" := by
  constructor
  · intro h
    obtain ⟨t, ht, hdeclared, -⟩ := h
    cases ht
    exact Names.createMutation_injective (List.mem_singleton.1 hdeclared)
  · rintro rfl
    exact ⟨_, rfl, by decide, by decide⟩

def taggedPublished : Document := ((tagged.augment {}).toOption).getD []

def taggedCatalog : Catalog := ((Catalog.ofDocument taggedPublished).toOption).getD default

/-- Somebody with a new friend and one who is known already. -/
def befriended : Json.Object :=
  [("name", .string "Ada"), ("friends", .object [
    ("create", .array [.object [("name", .string "Bob")]]),
    ("connect", .array [.object [("id", .string "1")]])])]

/-- Somebody whose pets are to be created, though there are none. -/
def petless : Json.Object := [("pets", .object [("create", .array [])])]

theorem compiles_of_admits_tagged :
    tagged.Publishable ∧ tagged.augment {} = .ok taggedPublished ∧
      Catalog.ofDocument taggedPublished = .ok taggedCatalog ∧
      (∃ compiled, (taggedCatalog.compile "createPerson" [("data", .object befriended)]
        none 0).1 = .ok compiled) ∧
      (taggedCatalog.compile "createPerson" [("data", .object petless)] none 0).1 =
        .error (.unknownMutation "createPet") := by
  have hl : tagged.augment {} = .ok taggedPublished := rfl
  have hc : Catalog.ofDocument taggedPublished = .ok taggedCatalog := rfl
  have hmodel : "Person" ∈ tagged.models.map ObjectType.name := by decide
  have hids : ∀ g ∈ (none : Option IdGenerator), g.Endless := by simp
  refine ⟨publishable_tagged, hl, hc, ?_, ?_⟩
  · have hadmits : taggedPublished.admitsWithin 9 (.named "PersonCreateInput")
        (.object befriended) = true := by decide
    have horderly : taggedCatalog.Orderly "Person" befriended :=
      ⟨⟨by decide, by decide⟩, by decide⟩
    have hpets : ¬ taggedCatalog.Creates "Person" befriended "Pet" := by
      unfold Catalog.Creates
      decide
    refine (compiles_of_admits publishable_tagged hl hc hmodel rfl
      (Document.admits_of_admitsWithin hadmits) horderly hids 0).2 fun related hcreates h => ?_
    exact hpets (unmarked_tagged_iff.1 h ▸ hcreates)
  · have hadmits : taggedPublished.admitsWithin 9 (.named "PersonCreateInput")
        (.object petless) = true := by decide
    have horderly : taggedCatalog.Orderly "Person" petless := ⟨⟨by decide, by decide⟩, by decide⟩
    have hpets : taggedCatalog.Creates "Person" petless "Pet" := by
      unfold Catalog.Creates
      decide
    obtain ⟨related, -, hunmarked, outcome⟩ := (compiles_of_admits publishable_tagged hl hc hmodel
      rfl (Document.admits_of_admitsWithin hadmits) horderly hids 0).1
        ⟨_, hpets, unmarked_tagged_iff.2 rfl⟩
    rw [unmarked_tagged_iff.1 hunmarked] at outcome
    exact outcome

/-- A known friend, looked up by a tag that is to be created. -/
def befriendedByTag : Json.Object :=
  [("friends", .object [
    ("connect", .array [.object [("tag", .object [("create", .object [])])]])])]

theorem not_compiles_tagged :
    tagged.Publishable ∧ tagged.augment {} = .ok taggedPublished ∧
      Catalog.ofDocument taggedPublished = .ok taggedCatalog ∧
      taggedCatalog.isGenerated "createPerson" = true ∧
      taggedPublished.Admits (.named "PersonCreateInput") (.object befriendedByTag) ∧
      taggedCatalog.Bounded "Person" befriendedByTag ∧
      (∀ related, taggedCatalog.Creates "Person" befriendedByTag related →
        ¬ tagged.Unmarked related) ∧
      (taggedCatalog.compile "createPerson" [("data", .object befriendedByTag)] none 0).1 =
        .error (.unknownModel "JSON") := by
  have hadmits : taggedPublished.admitsWithin 9 (.named "PersonCreateInput")
      (.object befriendedByTag) = true := by decide
  have hpets : ¬ taggedCatalog.Creates "Person" befriendedByTag "Pet" := by
    unfold Catalog.Creates
    decide
  refine ⟨publishable_tagged, rfl, rfl, rfl, Document.admits_of_admitsWithin hadmits,
    ⟨by decide, by decide⟩, fun related hcreates hunmarked => ?_, rfl⟩
  exact hpets (unmarked_tagged_iff.1 hunmarked ▸ hcreates)

end GraphqlCypher
