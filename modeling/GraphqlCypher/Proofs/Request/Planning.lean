import GraphqlCypher.Proofs.Catalog.Edges
import GraphqlCypher.Proofs.Mutation.Faults
import GraphqlCypher.Proofs.Plan

/-! Which mutations are compiled and which are passed on.

A mutation is compiled if its field has the binding's mark in the schema. What it is compiled from
is found by another rule: there is something for the mutation that creates a model, and for the
one that puts a relation's edges. Both rules read the same schema, but not the same part of it.

A field without the mark is passed on, whatever it is called. One with the mark is compiled, if
there is something for it, and then no failure blames the field, unless the supply of ids fails so
(`Plan.ofMutation_cases`). The mark on any other field makes every request for it fail, though the
database may well know the mutation (`Plan.not_compilesOrPasses_greeting`). -/
namespace GraphqlCypher

open Schema

namespace Schema.Document

/-- The last mutation type gives a field of the name the binding's mark. -/
def Marks (d : Document) (field : String) : Prop :=
  ∃ t, d.lastObject? Names.mutation = some t ∧
    ∃ f ∈ t.fields, f.name = field ∧ hasDirective f.directives Names.binding = true

/-- A mutation of the name could be generated: it creates a model or puts a relation's edges. -/
def Offers (d : Document) (field : String) : Prop :=
  (∃ m ∈ d.models, Names.createMutation m.name = field) ∨ ∃ e ∈ d.edges, e.mutation = field

end Schema.Document

namespace Catalog

variable {d : Document} {c : Catalog} {field : String}

/-! ### What is marked -/

theorem generatedNames_eq_nil (hnone : d.lastObject? Names.mutation = none) :
    generatedNames d = [] := by
  have hroot : RootFields.find? d Names.mutation = none := by
    rw [Document.lastObject?_eq, Option.map_eq_none_iff] at hnone
    rw [RootFields.find?, hnone]
    rfl
  rw [generatedNames, RootIndex.ofDocument, hroot]
  rfl

theorem mem_generatedNames_iff_marks : field ∈ generatedNames d ↔ d.Marks field := by
  unfold Document.Marks
  cases ht : d.lastObject? Names.mutation with
  | none => simp [generatedNames_eq_nil ht]
  | some t =>
    simp only [generatedNames_eq ht, List.mem_map, List.mem_filter, Option.some.injEq,
      exists_eq_left']
    constructor
    · intro h
      obtain ⟨f, ⟨hf, hmarked⟩, hname⟩ := h
      exact ⟨f, hf, hname, hmarked⟩
    · intro h
      obtain ⟨f, hf, hname, hmarked⟩ := h
      exact ⟨f, ⟨hf, hmarked⟩, hname⟩

theorem isGenerated_iff_marks (h : ofDocument d = .ok c) :
    c.isGenerated field = true ↔ d.Marks field := by
  rw [eq_of_ofDocument h, isGenerated, List.contains_iff_mem, mem_generatedNames_iff_marks]

/-! ### What there is to compile -/

/-- The names under which a model has mutations. -/
theorem mem_keys_modelMutations {generated : List String} {m : ObjectType} :
    field ∈ (modelMutations generated m).map Prod.fst ↔
      Names.createMutation m.name = field ∧ field ∈ generated ∨
        ∃ e ∈ m.edges, e.mutation = field := by
  have hcreate : (field ∈ (if generated.contains (Names.createMutation m.name) then
      [(Names.createMutation m.name, (⟨m.name, Template.createOf m⟩ : MutationInfo))]
        else []).map Prod.fst) ↔ Names.createMutation m.name = field ∧ field ∈ generated := by
    split
    · next hmem =>
      rw [List.map_singleton, List.mem_singleton]
      refine ⟨fun e => ⟨e.symm, e ▸ List.contains_iff_mem.1 hmem⟩, fun e => e.1.symm⟩
    · next hmem =>
      refine ⟨(nomatch ·), fun e => absurd (List.contains_iff_mem.2 ?_) hmem⟩
      exact e.1 ▸ e.2
  rw [modelMutations, List.map_append, List.mem_append, hcreate]
  simp only [ObjectType.edges, List.map_map, List.mem_map, exists_exists_and_eq_and]
  rfl

/-- A catalog has a mutation for every relation, and for every model whose create mutation is
marked. -/
theorem exists_mutation_iff (h : ofDocument d = .ok c) :
    (∃ info, c.mutation field = .ok info) ↔
      (∃ m ∈ d.models, Names.createMutation m.name = field) ∧ d.Marks field ∨
        ∃ e ∈ d.edges, e.mutation = field := by
  have hkeys : (∃ info, c.mutation field = .ok info) ↔
      field ∈ (d.models.flatMap (modelMutations (generatedNames d))).map Prod.fst := by
    simp only [mutation_ok_iff]
    rw [← Entries.mem_keys_ofList, eq_of_ofDocument h]
    refine ⟨fun found => ?_, Entries.exists_get?_of_mem_keys⟩
    obtain ⟨info, hinfo⟩ := found
    exact List.mem_map_of_mem (Entries.mem_of_get? hinfo)
  rw [hkeys, List.map_flatMap, List.mem_flatMap, ← mem_generatedNames_iff_marks]
  simp only [mem_keys_modelMutations, Document.edges, List.mem_flatMap]
  constructor
  · intro found
    obtain ⟨m, hm, ⟨hname, hmarked⟩ | ⟨e, he, hname⟩⟩ := found
    · exact .inl ⟨⟨m, hm, hname⟩, hmarked⟩
    · exact .inr ⟨e, ⟨m, hm, he⟩, hname⟩
  · intro offered
    obtain ⟨⟨m, hm, hname⟩, hmarked⟩ | ⟨e, ⟨m, hm, he⟩, hname⟩ := offered
    · exact ⟨m, hm, .inl ⟨hname, hmarked⟩⟩
    · exact ⟨m, hm, .inr ⟨e, he, hname⟩⟩

/-- What there is for a marked field does not depend on the marks. -/
theorem exists_mutation_iff_offers (h : ofDocument d = .ok c) (hmarked : d.Marks field) :
    (∃ info, c.mutation field = .ok info) ↔ d.Offers field := by
  rw [exists_mutation_iff h, and_iff_left hmarked, Document.Offers]

/-! ### Compiling -/

theorem mutation_error_of_not_exists (h : ¬ ∃ info, c.mutation field = .ok info) :
    c.mutation field = .error (.unknownMutation field) := by
  unfold mutation at h ⊢
  split
  · next info hinfo =>
    rw [hinfo] at h
    exact absurd ⟨info, rfl⟩ h
  · rfl

variable {ids : Option IdGenerator} {drawn : Nat} {values : Json.Object}

/-- A mutation that the catalog has is reported as unknown by the supply of ids, if at all. -/
theorem exists_id_of_compile_unknownMutation {info : MutationInfo} {n : Nat}
    (hname : c.isGenerated field = true) (hinfo : c.mutation field = .ok info)
    (failed : c.compile field values ids drawn = (.error (.unknownMutation field), n)) :
    ∃ g ∈ ids, g.next n = .error (.unknownMutation field) := by
  rcases cause_of_compile failed with ⟨-, hmarked | hmissing⟩ | ⟨-, _, -, hdata | cause⟩
  · rw [hname] at hmarked
    cases hmarked
  · rw [hinfo] at hmissing
    cases hmissing
  · cases hdata
  · have known : Entries.get? c.mutations field = some info := (mutation_ok_iff _ _ _).1 hinfo
    generalize he : Failure.unknownMutation field = e at cause
    -- a walk itself reports as unknown only what the catalog lacks
    cases cause with
    | id supply refused => exact ⟨_, supply, he ▸ refused⟩
    | unknownRelation _ _ missing | unknownCreation _ _ _ missing =>
      cases he
      rw [known] at missing
      cases missing
    | nestedTooDeep | bothOnToOne | nestedNotObject | unknownModel => cases he

/-- What is compiled for a field is a mutation of its name. -/
theorem name_of_compile {m : CompiledMutation} (h : (c.compile field values ids drawn).1 = .ok m) :
    m.name = field := by
  obtain ⟨info, -, ⟨-, rfl⟩ | ⟨-, data, root, t, -, hroot, rfl⟩⟩ := cases_of_compile h
  · rfl
  · exact (rootCall_of_compileRoot hroot).1

end Catalog

/-! ### Planning -/

namespace Plan

theorem ofMutation_of_isGenerated {c : Catalog} {field : String} (h : c.isGenerated field = true)
    (operation : String) (values : Json.Object) (ids : Option IdGenerator) (drawn : Nat) :
    ofMutation c operation field values ids drawn =
      ((c.compile field values ids drawn).1.map Plan.mutation,
        (c.compile field values ids drawn).2) := by
  rw [ofMutation, if_pos h]

/-- **What becomes of a mutation.** Without the mark it is passed on as it is. With the mark it is
compiled, to a mutation of the field's name or with a failure that does not blame the field, just
when the schema offers it. The mark on anything else is a failure, and no id is drawn.

A supply of ids may itself fail by blaming the field, as it may fail in any way: then it did so
for the id that was asked for last. -/
theorem ofMutation_cases {d : Document} {c : Catalog} (h : Catalog.ofDocument d = .ok c)
    (operation field : String) (values : Json.Object) (ids : Option IdGenerator) (drawn : Nat) :
    (¬ d.Marks field → ofMutation c operation field values ids drawn =
      (.ok (.passthrough field (Statement.execute operation values)), drawn)) ∧
    (d.Marks field → d.Offers field →
      ofMutation c operation field values ids drawn =
        ((c.compile field values ids drawn).1.map Plan.mutation,
          (c.compile field values ids drawn).2) ∧
      (∀ p, (ofMutation c operation field values ids drawn).1 = .ok p →
        ∃ m, p = .mutation m ∧ m.name = field) ∧
      (∀ n, ofMutation c operation field values ids drawn = (.error (.unknownMutation field), n) →
        ∃ g ∈ ids, g.next n = .error (.unknownMutation field))) ∧
    (d.Marks field → ¬ d.Offers field → ofMutation c operation field values ids drawn =
      (.error (.unknownMutation field), drawn)) := by
  refine ⟨fun hunmarked => ?_, fun hmarked hoffered => ?_, fun hmarked hother => ?_⟩
  · have hname : c.isGenerated field = false :=
      Bool.eq_false_iff.2 fun hname => hunmarked ((Catalog.isGenerated_iff_marks h).1 hname)
    exact ofMutation_of_not_isGenerated c hname operation values ids drawn
  · have hname := (Catalog.isGenerated_iff_marks h).2 hmarked
    obtain ⟨info, hinfo⟩ := (Catalog.exists_mutation_iff_offers h hmarked).2 hoffered
    rw [ofMutation_of_isGenerated hname]
    rcases hcompile : c.compile field values ids drawn with ⟨e | m, k⟩
    · refine ⟨rfl, (fun p hp => nomatch hp), fun n failed => ?_⟩
      cases failed
      exact Catalog.exists_id_of_compile_unknownMutation hname hinfo hcompile
    · refine ⟨rfl, fun p hp => ?_, (fun n failed => nomatch failed)⟩
      cases hp
      exact ⟨m, rfl, Catalog.name_of_compile (congrArg Prod.fst hcompile)⟩
  · have hname := (Catalog.isGenerated_iff_marks h).2 hmarked
    have hmissing := Catalog.mutation_error_of_not_exists fun found =>
      hother ((Catalog.exists_mutation_iff_offers h hmarked).1 found)
    simp only [ofMutation_of_isGenerated hname, Catalog.compile, hname, hmissing]
    rfl

/-- A friend with a name is asked for by a field that the schema marks and offers. -/
theorem ofMutation_cases_friends : ∃ m,
    friends.Marks "createPerson" ∧ friends.Offers "createPerson" ∧
    (ofMutation friendsCatalog "" "createPerson" friendsValues
      (some (.counting "n" none)) 0).1 = .ok (.mutation m) ∧ m.name = "createPerson" := by
  have h : Catalog.ofDocument friends = .ok friendsCatalog := rfl
  have hmarked : friends.Marks "createPerson" := ⟨_, rfl, _, .head _, rfl, rfl⟩
  have hoffered : friends.Offers "createPerson" := .inl ⟨_, .head _, rfl⟩
  obtain ⟨-, hcompiled, -⟩ :=
    ofMutation_cases h "" "createPerson" friendsValues (some (.counting "n" none)) 0
  obtain ⟨-, hnamed, -⟩ := hcompiled hmarked hoffered
  obtain ⟨p, hp⟩ : ∃ p, (ofMutation friendsCatalog "" "createPerson" friendsValues
      (some (.counting "n" none)) 0).1 = .ok p := ⟨_, rfl⟩
  obtain ⟨m, rfl, hname⟩ := hnamed p hp
  exact ⟨m, hmarked, hoffered, hp, hname⟩

/-- No failure of a plan reports its own field as unknown, and a field that there is nothing to
compile for is passed on. -/
def CompilesOrPasses (c : Catalog) (operation field : String) (values : Json.Object)
    (ids : Option IdGenerator) (drawn : Nat) : Prop :=
  (ofMutation c operation field values ids drawn).1 ≠ .error (.unknownMutation field) ∧
    (Entries.get? c.mutations field = none →
      ∃ s, (ofMutation c operation field values ids drawn).1 = .ok (.passthrough field s))

/-- A greeting that is marked though no model is there to create. -/
def greeting : Document :=
  [.type (.object {
    name := Names.mutation
    fields := [
      { name := "greet", type := .named "String"
        directives := [Directive.bare Names.binding] }] })]

/-- **A mark can be on any field.** The greeting is neither compiled nor passed on. -/
theorem not_compilesOrPasses_greeting : ∃ c, Catalog.ofDocument greeting = .ok c ∧
    ¬ CompilesOrPasses c "mutation \x7b greet \x7d" "greet" [] none 0 := by
  refine ⟨_, rfl, fun h => ?_⟩
  obtain ⟨-, hpassed⟩ := h
  obtain ⟨s, hs⟩ := hpassed rfl
  cases hs

end Plan

end GraphqlCypher
