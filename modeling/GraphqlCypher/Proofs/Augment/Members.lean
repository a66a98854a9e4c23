import GraphqlCypher.Proofs.Augment.Additive

/-! What an augmentation generates, member by member.

A generated part gives its members by name: the arguments of a new root field, those of a
model's field that leads to a model, the fields of a new input type, the values of a new
enum (`Document.Generated`). Each part comes from one of the generators, which a scope runs
on one of its models (`Source`, `Scope.part`). So what holds of the members of every source
holds of every part that an augmentation generates (`source_of_generated`). -/
namespace GraphqlCypher.Schema

/-! ### Parts -/

/-- The members of a part: arguments or the fields of an input type, or the values of an
enum. -/
inductive Part where
  | inputs (values : List InputValue)
  | options (values : List EnumValue)

def Part.names : Part → List String
  | .inputs values => values.map InputValue.name
  | .options values => values.map EnumValue.name

namespace Document

/-- The parts that an augmented document has beyond the document it was made from. -/
inductive Generated (o : AugmentOptions) (d d' : Document) : Part → Prop where
  /-- The arguments of a root field that was not declared. -/
  | root {root : String} {t : ObjectType} {f : Field} (isRoot : TypeIndex.isRoot root = true)
      (last : d'.lastObject? root = some t) (field : f ∈ t.fields)
      (new : ∀ u, d.lastObject? root = some u → f.name ∉ u.fields.map Field.name) :
      Generated o d d' (.inputs f.arguments)
  /-- The arguments of a field of a model that leads to a model; they are rebuilt at home. -/
  | rebuilt {t : ObjectType} {f : Field} (atHome : o.remote = false) (model : t ∈ d'.models)
      (field : f ∈ t.fields) (leads : ∃ m ∈ d.models, m.name = f.typeName) :
      Generated o d d' (.inputs f.arguments)
  | input {t : InputType} (new : Definition.type (.input t) ∈ d'.drop d.length) :
      Generated o d d' (.inputs t.fields)
  | enum {t : EnumType} (new : Definition.type (.enum t) ∈ d'.drop d.length) :
      Generated o d d' (.options t.values)

end Document

/-! ### Sources -/

/-- What makes a part: a generator and the model that it is run on. -/
inductive Source where
  /-- An id that is put into a model has no arguments. -/
  | bare
  | query (m : ObjectType)
  /-- A field that leads to a model, to many or to one. -/
  | related (m : ObjectType) (isList : Bool)
  | create (m : ObjectType)
  /-- The mutation that puts the edges of a relation. -/
  | relate (m : ObjectType) (f : Field)
  | type (k : TypeKind) (m : ObjectType)

def TypeDefinition.part : TypeDefinition → Part
  | .input t => .inputs t.fields
  | .enum t => .options t.values
  | _ => .inputs []

namespace Scope

variable (S : Scope)

/-- The part that a source makes. -/
def part : Source → Part
  | .bare => .inputs []
  | .query m => .inputs (S.queryArguments m)
  | .related m isList => .inputs (S.freshArguments m.name isList)
  | .create m => .inputs (S.create m).arguments
  | .relate m f => .inputs
    [.of "where" (.nonNull (.named (Names.whereUniqueInput m.name))),
      .of f.name (.nonNull (.listOfNonNull (Names.whereUniqueInput f.typeName)))]
  | .type k m => (S.generated k m).part

/-- The sources of a scope. -/
inductive Has : Source → Prop where
  | bare : Has .bare
  | query {m : ObjectType} (model : m ∈ S.document.models) : Has (.query m)
  | related {m : ObjectType} {isList : Bool} (model : m ∈ S.document.models) :
      Has (.related m isList)
  | create {m : ObjectType} (model : m ∈ S.document.models) : Has (.create m)
  | relate {m : ObjectType} {f : Field} (model : m ∈ S.document.models) (field : f ∈ m.fields)
      (relation : f.isRelation = true) (leads : S.isModel f.typeName = true) : Has (.relate m f)
  | type {k : TypeKind} {m : ObjectType} (model : m ∈ S.document.models) : Has (.type k m)

variable {S}

/-! ### Root fields -/

/-- The fields that a root takes are queries of models, or mutations of models. -/
theorem mem_addedFields {i : Nat} {f : Field} (h : f ∈ S.addedFields i) :
    (∃ m ∈ S.models, f = S.listQuery m) ∨ ∃ m ∈ S.models, f ∈ S.mutations m := by
  rcases List.mem_append.1 h with h | h
  · split at h
    · have hquery := Indexed.mem_of_mem_newFields h
      split at hquery
      · cases hquery
      · obtain ⟨m, hm, rfl⟩ := List.mem_map.1 hquery
        exact .inl ⟨m, hm, rfl⟩
    · cases h
  · split at h
    · obtain ⟨m, hm, hf⟩ := List.mem_flatMap.1 (Indexed.mem_of_mem_newFields h)
      exact .inr ⟨m, List.mem_of_mem_filter hm, hf⟩
    · cases h

/-- A mutation of a model creates it or puts edges. -/
theorem mem_mutations {m : ObjectType} {g : Field} (h : g ∈ S.mutations m) :
    g = S.create m ∨
      ∃ f ∈ m.fields, f.isRelation = true ∧ S.relationMutation? m f = some g := by
  unfold mutations at h
  unfold create
  split at h
  · next hremote =>
    rw [if_pos hremote]
    rcases List.mem_cons.1 h with h | h
    · exact .inl h
    · obtain ⟨f, hf, hg⟩ := List.mem_filterMap.1 h
      obtain ⟨hf, hrelation⟩ := List.mem_filter.1 hf
      exact .inr ⟨f, hf, hrelation, hg⟩
  · next hlocal =>
    rw [if_neg hlocal]
    exact .inl (List.mem_singleton.1 h)

/-- A field that a root takes is resolved through the binding or holds a statement, and is not
marked otherwise. -/
theorem directives_of_mem_addedFields {i : Nat} {f : Field} (h : f ∈ S.addedFields i) :
    f.directives = [Directive.bare Names.binding] ∨ ∃ statement,
      f.directives = [Directive.withString Names.cypher Names.statement statement] := by
  rcases mem_addedFields h with ⟨m, -, rfl⟩ | ⟨m, -, hf⟩
  · exact .inl rfl
  · rcases mem_mutations hf with rfl | ⟨g, -, -, hg⟩
    · unfold create
      split
      · exact .inr ⟨_, rfl⟩
      · exact .inl rfl
    · obtain ⟨related, -, hg⟩ := Option.bind_eq_some_iff.1 hg
      obtain ⟨statement, -, rfl⟩ := Option.map_eq_some_iff.1 hg
      exact .inr ⟨_, rfl⟩

/-- No name is taken twice by a root. -/
theorem name_not_mem_of_mem_addedFields (h : S.Indexed) {i : Nat} {t : ObjectType}
    (ht : S.document.objectAt? i = some t) {f : Field} (hf : f ∈ S.addedFields i) :
    f.name ∉ t.fields.map Field.name := by
  have hnew : ∀ {root : String} {fields : List Field},
      (RootFields.find? S.document root).map RootFields.place = some i →
        f ∈ newFields (RootFields.find? S.document root) fields →
          f.name ∉ t.fields.map Field.name := by
    intro root fields hplace hnew
    obtain ⟨r, hr, rfl⟩ := Option.map_eq_some_iff.1 hplace
    obtain ⟨u, hu, -, hfields, -⟩ := RootFields.find?_some hr
    obtain rfl : t = u := Option.some.inj (ht.symm.trans hu)
    rw [hr] at hnew
    rw [← RootFields.mem_keys_fields, ← hfields]
    exact not_mem_of_mem_freshBy Field.name _ _ _ hnew
  rcases List.mem_append.1 hf with hf | hf
  · split at hf
    · next hplace =>
      rw [h.roots] at hplace
      rw [additions, h.roots] at hf
      exact hnew hplace hf
    · cases hf
  · split at hf
    · next hplace =>
      rw [h.roots] at hplace
      rw [additions, h.roots] at hf
      exact hnew hplace hf
    · cases hf

namespace Indexed

variable (h : S.Indexed)
include h

theorem model?_of_mem {m : ObjectType} (hm : m ∈ S.document.models) :
    S.model? m.name = some m := by
  rw [h.model?_eq]
  cases hfound : S.document.models.find? (·.name == m.name) with
  | none => exact absurd BEq.rfl (List.find?_eq_none.1 hfound m hm)
  | some u =>
    have hname : u.name = m.name := by simpa using List.find?_some hfound
    rw [TypeIndex.eq_of_name_eq h.index (List.mem_of_find?_eq_some hfound) hm hname]

theorem source_of_addedField {i : Nat} {f : Field} (hf : f ∈ S.addedFields i) :
    ∃ s, S.Has s ∧ Part.inputs f.arguments = S.part s := by
  rcases mem_addedFields hf with ⟨m, hm, rfl⟩ | ⟨m, hm, hf⟩
  · exact ⟨.query m, .query (h.models_eq ▸ hm), rfl⟩
  · rw [h.models_eq] at hm
    rcases mem_mutations hf with rfl | ⟨g, hg, hrelation, hf⟩
    · exact ⟨.create m, .create hm, rfl⟩
    · obtain ⟨related, hrelated, hf⟩ := Option.bind_eq_some_iff.1 hf
      obtain ⟨statement, -, rfl⟩ := Option.map_eq_some_iff.1 hf
      rw [h.model?_eq] at hrelated
      have hname : related.name = g.typeName := by simpa using List.find?_some hrelated
      have hmodel : S.isModel g.typeName = true :=
        (TypeIndex.isModel_iff h.index).2 ⟨related, List.mem_of_find?_eq_some hrelated, hname⟩
      exact ⟨.relate m g, .relate hm hg hrelation hmodel, by rw [part, ← hname]; rfl⟩

/-- A field of a model that is rebuilt has fresh arguments if it leads to a model. -/
theorem source_of_rebuildField {f : Field} (hf : f.arguments = [] ∨ S.isModel f.typeName = true) :
    ∃ s, S.Has s ∧ Part.inputs (S.rebuildField f).arguments = S.part s := by
  cases hm : S.model? f.typeName with
  | none =>
    rcases hf with hf | hf
    · refine ⟨.bare, .bare, ?_⟩
      rw [rebuildField, relationArguments?, hm]
      exact congrArg Part.inputs hf
    · obtain ⟨m, hmem, hname⟩ := (TypeIndex.isModel_iff h.index).1 hf
      rw [h.model?_eq] at hm
      exact absurd (beq_iff_eq.2 hname) (List.find?_eq_none.1 hm m hmem)
  | some m =>
    have hfound := hm
    rw [h.model?_eq] at hfound
    have hname : m.name = f.typeName := by simpa using List.find?_some hfound
    refine ⟨.related m f.type.isList, .related (List.mem_of_find?_eq_some hfound), ?_⟩
    rw [rebuildField, relationArguments?, hm, part, freshArguments, hname, hm]
    rfl

end Indexed

end Scope

/-! ### From parts to sources -/

/-- The field for the internal id. -/
def internalIdField : Field := { name := Names.internalId, type := .named "Int" }

/-- What a field of a model was before it was extended. -/
theorem Scope.mem_remade {S : Scope} {t : ObjectType} {f : Field} (h : f ∈ (S.remade t).fields) :
    (S.options.remote = true ∧ f ∈ t.fields) ∨
      (S.options.remote = false ∧
        ((∃ g ∈ t.fields, f = S.rebuildField g) ∨ f = internalIdField)) := by
  unfold remade at h
  split at h
  · next hremote => exact .inl ⟨hremote, h⟩
  · next hlocal =>
    refine .inr ⟨by simpa using hlocal, ?_⟩
    rcases List.mem_append.1 h with h | h
    · obtain ⟨g, hg, rfl⟩ := List.mem_map.1 h
      exact .inl ⟨g, hg, rfl⟩
    · split at h
      · cases h
      · exact .inr (List.mem_singleton.1 h)

/-- A field that a model lacked before it was settled has no arguments. -/
theorem ObjectType.arguments_of_mem_settled {o : AugmentOptions} {t : ObjectType} {f : Field}
    (h : f ∈ (t.settled o).fields) (hnew : f.name ∉ t.fields.map Field.name) :
    f.arguments = [] := by
  have hreduced : f ∉ t.reduceNestedLists.fields := fun hf =>
    hnew (t.names_reduceNestedLists ▸ List.mem_map_of_mem hf)
  have hkept : f ∉ t.fields := fun hf => hnew (List.mem_map_of_mem hf)
  unfold settled normalized at h
  split at h
  · split at h
    · next t' ht' =>
      rcases fields_of_normalize ht' with hperm | ⟨hfields, -⟩
      · exact absurd (hperm.mem_iff.1 h) hreduced
      · rw [hfields] at h
        rcases List.mem_cons.1 h with rfl | h
        · rfl
        · exact absurd h hreduced
    · exact absurd h hkept
  · exact absurd h hkept

namespace Document

theorem objects_rooted (o : AugmentOptions) (d : Document) : (d.rooted o).objects = d.objects := by
  have hobjects : ∀ d : Document, d.objects = (d.map Definition.object?).filterMap id := by
    intro d
    rw [List.filterMap_map]
    rfl
  rw [hobjects, object?_rooted, ← hobjects]

/-- Scaffolding adds no input and no enum. -/
theorem object_of_mem_scaffolding {o : AugmentOptions} {d : Document}
    {queries mutations : List Field} {t : TypeDefinition}
    (h : Definition.type t ∈ d.scaffolding o queries mutations) :
    ∃ u, t = .object u := by
  have hmissing : ∀ {enabled name fields}, Definition.type t ∈ d.missingObject enabled name fields →
      ∃ u, t = .object u := by
    intro enabled name fields h
    unfold missingObject at h
    split at h
    · cases List.mem_singleton.1 h
      exact ⟨_, rfl⟩
    · cases h
  rcases List.mem_append.1 h with h | h
  · split at h
    · cases List.mem_singleton.1 h
    · cases h
  · exact (List.mem_append.1 h).elim hmissing hmissing

/-- Nothing is generated where there is no model. -/
theorem not_generated_self {o : AugmentOptions} {d : Document} (hmodels : d.models = [])
    (p : Part) : ¬ d.Generated o d p := by
  intro hp
  cases hp with
  | root _ last field new => exact new _ last (List.mem_map_of_mem field)
  | rebuilt _ _ _ leads =>
    obtain ⟨m, hm, -⟩ := leads
    rw [hmodels] at hm
    cases hm
  | input new | enum new =>
    rw [List.drop_length] at new
    cases new

/-- A root of the extended document is one of the prepared one, extended. -/
theorem exists_extended_root {S : Scope} {d : Document} {root : String} {t : ObjectType}
    (ht : (d.extend S).lastObject? root = some t) :
    ∃ i u, d.objectAt? i = some u ∧ d.lastObject? root = some u ∧ t = S.extended i u := by
  rw [lastObject?_eq, placedObjects_extend, List.filter_map, List.getLast?_map, Option.map_map,
    Option.map_eq_some_iff] at ht
  obtain ⟨⟨i, u⟩, hlast, rfl⟩ := ht
  have hfilter : d.placedObjects.filter
      ((fun p : Nat × ObjectType => p.2.name == root) ∘ fun p => (p.1, S.extended p.1 p.2)) =
      d.placedObjects.filter (·.2.name == root) :=
    List.filter_congr fun p _ => by simp only [Function.comp_apply, S.extended_name]
  rw [hfilter] at hlast
  refine ⟨i, u, mem_placedObjects.1 (List.mem_of_mem_filter (List.mem_of_getLast? hlast)), ?_, rfl⟩
  rw [lastObject?_eq, hlast]
  rfl

namespace Prepares

variable {o : AugmentOptions} {d : Document} {S : Scope} (h : d.Prepares o S)
include h

theorem isModel_iff {name : String} :
    S.isModel name = true ↔ ∃ m ∈ d.models, m.name = name := by
  rw [Scope.isModel, TypeIndex.isModel_iff h.indexed.index, h.models_eq]
  simp only [List.mem_map, exists_exists_and_eq_and, ObjectType.normalized_name]

/-- A root of the prepared document is that of the document, settled, or a new one. -/
theorem lastObject?_prepared {root : String} {u : ObjectType}
    (hu : S.document.lastObject? root = some u) :
    (∃ t, d.lastObject? root = some t ∧ u = t.settled o) ∨ u.fields = [] := by
  have hname : ∀ t : ObjectType, (t.settled o).name = t.name := by
    intro t
    obtain ⟨fields, ht⟩ := t.settled_eq o
    rw [ht]
  have hobjects : S.document.objects = (d.scaffold o).objects.map (ObjectType.settled o) := by
    rw [h.document_eq, objects_eq, placedObjects_editObjects, objects_eq, List.map_map,
      List.map_map]
    rfl
  rw [lastObject?_of_objects hname hobjects, lastObject?, scaffold_eq_scaffolding, objects_append,
    List.filter_append, List.getLast?_append, objects_rooted] at hu
  obtain ⟨t, ht, rfl⟩ := Option.map_eq_some_iff.1 hu
  cases hadded : ((d.scaffolding o [] []).objects.filter (·.name == root)).getLast? with
  | none =>
    rw [hadded, Option.none_or] at ht
    exact .inl ⟨t, ht, rfl⟩
  | some t' =>
    rw [hadded, Option.some_or] at ht
    cases ht
    have hmem := List.mem_of_mem_filter (List.mem_of_getLast? hadded)
    rcases (mem_objects_scaffolding hmem).2 with rfl | rfl
    · exact .inr rfl
    · exact .inr rfl

theorem source_of_root {root : String} {t : ObjectType} {f : Field}
    (last : (S.document.extend S).lastObject? root = some t) (field : f ∈ t.fields)
    (new : ∀ u, d.lastObject? root = some u → f.name ∉ u.fields.map Field.name) :
    ∃ s, S.Has s ∧ Part.inputs f.arguments = S.part s := by
  obtain ⟨i, u, -, hlast, rfl⟩ := exists_extended_root last
  -- a field that was put in while the document was prepared is an id
  have hbare : ∀ g ∈ u.fields, g.name = f.name → g.arguments = [] := by
    intro g hg hname
    rcases h.lastObject?_prepared hlast with ⟨v, hv, rfl⟩ | hnone
    · exact ObjectType.arguments_of_mem_settled hg (hname ▸ new v hv)
    · rw [hnone] at hg
      cases hg
  rcases List.mem_append.1 field with field | field
  · split at field
    · rcases Scope.mem_remade field with ⟨-, hf⟩ | ⟨-, ⟨g, hg, rfl⟩ | rfl⟩
      · exact ⟨.bare, .bare, congrArg Part.inputs (hbare f hf rfl)⟩
      · obtain ⟨arguments, hname⟩ := S.rebuildField_eq g
        exact h.indexed.source_of_rebuildField (.inl (hbare g hg (by rw [hname])))
      · exact ⟨.bare, .bare, rfl⟩
    · exact ⟨.bare, .bare, congrArg Part.inputs (hbare f field rfl)⟩
  · exact h.indexed.source_of_addedField field

theorem source_of_rebuilt (atHome : o.remote = false) {t : ObjectType} {f : Field}
    (model : t ∈ (S.document.extend S).models) (field : f ∈ t.fields)
    (leads : ∃ m ∈ d.models, m.name = f.typeName) :
    ∃ s, S.Has s ∧ Part.inputs f.arguments = S.part s := by
  rw [models_extend_eq] at model
  obtain ⟨⟨i, u⟩, hplaced, rfl⟩ := List.mem_map.1 model
  have hmodel := (mem_placedModels.1 hplaced).2
  rcases List.mem_append.1 field with field | field
  · rw [if_pos hmodel] at field
    rcases Scope.mem_remade field with ⟨hremote, -⟩ | ⟨-, ⟨g, hg, rfl⟩ | rfl⟩
    · rw [h.options, atHome] at hremote
      cases hremote
    · obtain ⟨arguments, hsame⟩ := S.rebuildField_eq g
      rw [hsame] at leads
      exact h.indexed.source_of_rebuildField (.inr (h.isModel_iff.2 leads))
    · exact ⟨.bare, .bare, rfl⟩
  · exact h.indexed.source_of_addedField field

/-- A new type that is no object is generated for a model. -/
theorem source_of_type {t : TypeDefinition} (hobject : ∀ u, t ≠ .object u)
    (new : Definition.type t ∈ (S.document.extend S).drop d.length) :
    ∃ s, S.Has s ∧ t.part = S.part s := by
  have hlength : (kept o d S).length = d.length := by
    rw [kept, editObjects, List.length_mapIdx, length_rooted]
  rw [h.extend_eq_append, List.append_assoc, ← hlength, List.drop_left] at new
  rcases List.mem_append.1 new with new | new
  · obtain ⟨u, rfl⟩ := object_of_mem_scaffolding new
    exact absurd rfl (hobject u)
  · obtain ⟨t', ht, heq⟩ := List.mem_map.1 new
    cases heq
    obtain ⟨m, hm, ht⟩ := List.mem_flatMap.1 (mem_of_mem_freshBy ht)
    obtain ⟨k, rfl⟩ := Scope.exists_generated ht
    exact ⟨.type k m, .type (h.indexed.models_eq ▸ hm), rfl⟩

/-- **Every part that an augmentation generates comes from a source.** -/
theorem source_of_generated {p : Part} (hp : d.Generated o (S.document.extend S) p) :
    ∃ s, S.Has s ∧ p = S.part s := by
  cases hp with
  | root _ last field new => exact h.source_of_root last field new
  | rebuilt atHome model field leads => exact h.source_of_rebuilt atHome model field leads
  | input new => exact h.source_of_type (fun u he => by cases he) new
  | enum new => exact h.source_of_type (fun u he => by cases he) new

end Prepares

/-- Where no query is declared, the first query of the augmented document is generated. -/
theorem exists_first_query {o : AugmentOptions} {d : Document} {α : Type}
    {g : List InputValue → α} {a : α} (hnone : (d.lastObject? Names.query).isNone = true)
    (h : ((d.augment o).toOption.bind fun d' => (d'.lastObject? Names.query).bind fun t =>
      t.fields.head?.map fun f => g f.arguments) = some a) :
    ∃ d' values, d.augment o = .ok d' ∧ d.Generated o d' (.inputs values) ∧ g values = a := by
  obtain ⟨d', hd', h⟩ := Option.bind_eq_some_iff.1 h
  obtain ⟨t, ht, h⟩ := Option.bind_eq_some_iff.1 h
  obtain ⟨f, hf, h⟩ := Option.map_eq_some_iff.1 h
  cases haugment : d.augment o with
  | error e =>
    rw [haugment] at hd'
    cases hd'
  | ok e =>
    rw [haugment] at hd'
    cases hd'
    refine ⟨d', f.arguments, rfl, .root (by decide) ht (List.mem_of_mem_head? hf) ?_, h⟩
    intro u hu
    rw [hu] at hnone
    cases hnone

end Document

end GraphqlCypher.Schema
