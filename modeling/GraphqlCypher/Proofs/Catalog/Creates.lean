import GraphqlCypher.Proofs.Augment.Roots
import GraphqlCypher.Proofs.Catalog.Relations

/-! The create mutations of a catalog.

A catalog has the mutation that creates a model just when the schema marks it as generated
(`mutation_create`, `mutation_create_none`): no relation has a mutation of such a name,
and no other model has it. -/
namespace GraphqlCypher

open Schema

namespace Catalog

variable {d : Document} {x : TypeIndex} {c : Catalog}

theorem ofDocument_eq (hx : TypeIndex.ofDocument d = .ok x) :
    ofDocument d = .ok {
      generated := generatedNames d
      models := Entries.ofList (d.models.map fun m => (m.name, ModelInfo.ofModel m))
      mutations := Entries.ofList (d.models.flatMap (modelMutations (generatedNames d))) } := by
  rw [ofDocument, hx]
  simp only [bind, Except.bind, pure, Except.pure, TypeIndex.modelTypes_eq hx]
  rfl

theorem index_of_ofDocument (h : ofDocument d = .ok c) : ∃ x, TypeIndex.ofDocument d = .ok x := by
  unfold ofDocument at h
  cases hx : TypeIndex.ofDocument d with
  | error e =>
    rw [hx] at h
    cases h
  | ok x => exact ⟨x, rfl⟩

/-- The generated mutations are the marked fields of their root. -/
theorem generatedNames_eq {t : ObjectType} (ht : d.lastObject? Names.mutation = some t) :
    generatedNames d =
      (t.fields.filter fun f => hasDirective f.directives Names.binding).map Field.name := by
  obtain ⟨r, hr, hplace, -⟩ := RootFields.find?_of_lastObject? ht
  have htype : (RootIndex.ofDocument d).mutations.bind (·.type? d) = some t := by
    rw [RootIndex.ofDocument, hr]
    exact hplace
  rw [generatedNames, htype]

/-- An entry for a create mutation is that of its model, if that is generated. -/
theorem mem_modelMutations_create {generated : List String} {m : ObjectType} {name : String}
    {info : MutationInfo} :
    (Names.createMutation name, info) ∈ modelMutations generated m ↔
      m.name = name ∧ Names.createMutation name ∈ generated ∧
        info = ⟨m.name, Template.createOf m⟩ := by
  have hrelation : ∀ f : Field, (Names.relationMutation m.name f.name,
      (⟨m.name, Template.relateOf m f⟩ : MutationInfo)) ≠ (Names.createMutation name, info) := by
    intro f e
    exact Names.relationMutation_ne_createMutation _ _ _ (congrArg Prod.fst e)
  have hrelations : (Names.createMutation name, info) ∉
      (m.fields.filter Field.isRelation).map fun f =>
        (Names.relationMutation m.name f.name, (⟨m.name, Template.relateOf m f⟩ : MutationInfo)) := by
    intro hmem
    obtain ⟨f, -, e⟩ := List.mem_map.1 hmem
    exact hrelation f e
  simp only [modelMutations, List.mem_append, hrelations, or_false]
  constructor
  · intro h
    split at h
    · next hgenerated =>
      obtain ⟨hname, rfl⟩ := Prod.mk.injEq .. ▸ List.mem_singleton.1 h
      have hname := Names.createMutation_injective hname
      subst hname
      exact ⟨rfl, List.contains_iff_mem.1 hgenerated, rfl⟩
    · cases h
  · intro h
    obtain ⟨rfl, hgenerated, rfl⟩ := h
    rw [if_pos (List.contains_iff_mem.2 hgenerated)]
    exact List.mem_singleton_self _

variable (h : ofDocument d = .ok c)
include h

theorem eq_of_ofDocument : c = {
    generated := generatedNames d
    models := Entries.ofList (d.models.map fun m => (m.name, ModelInfo.ofModel m))
    mutations := Entries.ofList (d.models.flatMap (modelMutations (generatedNames d))) } := by
  obtain ⟨x, hx⟩ := index_of_ofDocument h
  rw [ofDocument_eq hx] at h
  exact (Except.ok.inj h).symm

/-- A model of the document is in its catalog. -/
theorem model_ofDocument {m : ObjectType} (hm : m ∈ d.models) :
    c.model m.name = .ok (ModelInfo.ofModel m) := by
  obtain ⟨x, hx⟩ := index_of_ofDocument h
  rw [model_ok_iff, eq_of_ofDocument h]
  refine Entries.get?_ofList (List.mem_map_of_mem hm) fun info hinfo => ?_
  obtain ⟨m', hm', e⟩ := List.mem_map.1 hinfo
  obtain ⟨hname, rfl⟩ := Prod.mk.injEq .. ▸ e
  rw [TypeIndex.eq_of_name_eq hx hm' hm hname]

/-- A generated create mutation is in the catalog, with the template of its model. -/
theorem mutation_create {m : ObjectType} (hm : m ∈ d.models)
    (hgenerated : Names.createMutation m.name ∈ generatedNames d) :
    c.mutation (Names.createMutation m.name) = .ok ⟨m.name, Template.createOf m⟩ := by
  obtain ⟨x, hx⟩ := index_of_ofDocument h
  rw [mutation_ok_iff, eq_of_ofDocument h]
  refine Entries.get?_ofList (List.mem_flatMap.2
    ⟨m, hm, mem_modelMutations_create.2 ⟨rfl, hgenerated, rfl⟩⟩) fun info hinfo => ?_
  obtain ⟨m', hm', hentry⟩ := List.mem_flatMap.1 hinfo
  obtain ⟨hname, -, rfl⟩ := mem_modelMutations_create.1 hentry
  rw [TypeIndex.eq_of_name_eq hx hm' hm hname]

/-- A create mutation that is not marked is unknown. -/
theorem mutation_create_none {name : String}
    (hgenerated : Names.createMutation name ∉ generatedNames d) :
    c.mutation (Names.createMutation name) =
      .error (.unknownMutation (Names.createMutation name)) := by
  have hnone : Entries.get? c.mutations (Names.createMutation name) = none := by
    apply Entries.get?_eq_none
    rw [eq_of_ofDocument h, Entries.mem_keys_ofList, List.mem_map]
    intro hmem
    obtain ⟨⟨k, info⟩, hentry, rfl⟩ := hmem
    obtain ⟨m, -, hentry⟩ := List.mem_flatMap.1 hentry
    exact hgenerated (mem_modelMutations_create.1 hentry).2.1
  rw [mutation, hnone]

end Catalog

namespace Schema.Document

/-- No mutation that creates the model has the binding's mark, though the last mutation
type declares one. -/
def Unmarked (d : Document) (model : String) : Prop :=
  ∃ t, d.lastObject? Names.mutation = some t ∧ Names.createMutation model ∈ t.fields.map Field.name ∧
    ∀ f ∈ t.fields, f.name = Names.createMutation model →
      hasDirective f.directives Names.binding = false

namespace Prepares

variable {o : AugmentOptions} {d : Document} {S : Scope} (h : d.Prepares o S)
  (hroots : d.RootsApart) (ho : o.mutation = true)
include h hroots ho

/-- A local schema generates the mutation that creates a model, if neither that name nor
the model's was taken. -/
theorem mem_generatedNames (hlocal : o.remote = false) {m : ObjectType} (hm : m ∈ d.models)
    (hfree : ∀ t, d.lastObject? Names.mutation = some t → m.name ∉ t.fields.map Field.name ∧
      Names.createMutation m.name ∉ t.fields.map Field.name) :
    Names.createMutation m.name ∈ Catalog.generatedNames (S.document.extend S) := by
  obtain ⟨t, ht, hcreate⟩ := h.filter_create hroots ho hm hfree
  have hmem : S.create (m.normalized o) ∈ t.fields := by
    have hself : S.create (m.normalized o) ∈ [S.create (m.normalized o)] :=
      List.mem_singleton_self _
    rw [← hcreate] at hself
    exact List.mem_of_mem_filter hself
  have hmarked : hasDirective (S.create (m.normalized o)).directives Names.binding = true := by
    rw [Scope.create, h.options, hlocal]
    rfl
  rw [Catalog.generatedNames_eq ht, ← m.normalized_name o, ← S.create_name]
  exact List.mem_map_of_mem (List.mem_filter.2 ⟨hmem, hmarked⟩)

/-- So it does unless the document has that mutation without the binding's mark. -/
theorem mem_generatedNames_iff (hlocal : o.remote = false) {m : ObjectType} (hm : m ∈ d.models)
    (hfree : ∀ t, d.lastObject? Names.mutation = some t → m.name ∉ t.fields.map Field.name) :
    Names.createMutation m.name ∈ Catalog.generatedNames (S.document.extend S) ↔
      ¬ d.Unmarked m.name := by
  have hroot := h.lastObject?_mutation hroots ho
  have hextended := h.indexed.lastObject?_extend (h.rootsApart hroots) hroot
  obtain ⟨r, hr, -, hkeys⟩ := h.indexed.mutations_eq hroot
  constructor
  · intro hgenerated hunmarked
    obtain ⟨t, ht, hdeclared, hunmarked⟩ := hunmarked
    rw [ht, Option.getD_some] at hextended hkeys
    rw [Catalog.generatedNames_eq hextended] at hgenerated
    obtain ⟨f, hf, hname⟩ := List.mem_map.1 hgenerated
    obtain ⟨hf, hmarked⟩ := List.mem_filter.1 hf
    rcases List.mem_append.1 hf with hf | hf
    · rw [hunmarked f hf hname] at hmarked
      cases hmarked
    · -- A mutation that is there already is not generated.
      have hadded : f ∈ Scope.newFields S.roots.mutations
          ((S.models.filter S.generatesMutations).flatMap S.mutations) := hf
      rw [hr] at hadded
      refine not_mem_of_mem_freshBy Field.name _ _ f hadded ?_
      rw [hname]
      exact (hkeys _).2 hdeclared
  · intro hmarked
    by_cases hdeclared : ∃ t, d.lastObject? Names.mutation = some t ∧
        Names.createMutation m.name ∈ t.fields.map Field.name
    · obtain ⟨t, ht, hdeclared⟩ := hdeclared
      have hsome : ∃ f ∈ t.fields, f.name = Names.createMutation m.name ∧
          hasDirective f.directives Names.binding = true := by
        by_contra hnone
        refine hmarked ⟨t, ht, hdeclared, fun f hf hname => ?_⟩
        exact Bool.eq_false_iff.2 fun hf' => hnone ⟨f, hf, hname, hf'⟩
      obtain ⟨f, hf, hname, hf'⟩ := hsome
      rw [ht, Option.getD_some] at hextended
      rw [Catalog.generatedNames_eq hextended, ← hname]
      exact List.mem_map_of_mem (List.mem_filter.2 ⟨List.mem_append_left _ hf, hf'⟩)
    · refine h.mem_generatedNames hroots ho hlocal hm fun t ht => ⟨hfree t ht, fun hmem => ?_⟩
      exact hdeclared ⟨t, ht, hmem⟩

end Prepares

end Schema.Document

end GraphqlCypher
