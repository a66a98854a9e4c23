import GraphqlCypher.Proofs.Augment.Prepared

/-! The types that generated parts refer to.

A reference is a type name wherever a definition may hold one. Each generator refers to
the scalars it knows, to the types of the model's own fields, and to types that another
generator declares (`Scope.Resolved`). Only what links to a model can miss: the inputs of
a model that a declared mutation is named for are not generated, but other models go on
naming them (`Scope.resolved_linkInput`). -/
namespace GraphqlCypher.Schema

/-! ### References -/

namespace Field

/-- The type names of a field: its own and those of its arguments. -/
def references (f : Field) : List String := f.typeName :: f.arguments.map fun a => a.type.name

end Field

/-- The type names inside the definition of a type. -/
def TypeDefinition.references : TypeDefinition → List String
  | .scalar _ => []
  | .object t => t.interfaces ++ t.fields.flatMap Field.references
  | .interface t => t.interfaces ++ t.fields.flatMap Field.references
  | .union t => t.members
  | .enum _ => []
  | .input t => t.fields.map fun v => v.type.name

/-- The roots that are named, each with its kind of operation. -/
def Roots.entries (r : Roots) : List (String × String) :=
  r.query.toList.map ("query", ·) ++ r.mutation.toList.map ("mutation", ·) ++
    r.subscription.toList.map ("subscription", ·)

/-- The type names inside a definition. An extension refers to what it extends, too. -/
def Definition.references : Definition → List String
  | .roots r => r.entries.map Prod.snd
  | .type t => t.references
  | .extension t => t.name :: t.references
  | .directive x => x.arguments.map fun v => v.type.name

/-- The scalars that are referred to without being declared. -/
def builtInTypes : List String := ["Int", "ID", "Boolean"]

/-- The inputs by which other models link to a model. -/
def Names.linkInputs (model : String) : List String :=
  [createNestedInput model .one, createNestedInput model .many, whereUniqueInput model]

theorem Document.mem_typeNames_of_objectAt? {d : Document} {i : Nat} {t : ObjectType}
    (h : d.objectAt? i = some t) : t.name ∈ d.typeNames := by
  obtain ⟨x, hx, hobject⟩ := Option.bind_eq_some_iff.1 h
  refine List.mem_filterMap.2 ⟨x, List.mem_of_getElem? hx, ?_⟩
  rcases x.object_cases with hnone | ⟨u, rfl⟩
  · rw [hnone] at hobject
    cases hobject
  · cases hobject
    rfl

theorem TypeRef.stripNonNull_name (t : TypeRef) : t.stripNonNull.name = t.name := by
  cases t <;> rfl

namespace Scope

/-- What a type name in a generated part may stand for. -/
inductive Resolved (S : Scope) : String → Prop where
  | declared {n : String} (h : n ∈ (S.document.extend S).typeNames) : Resolved S n
  | builtIn {n : String} (h : n ∈ builtInTypes) : Resolved S n
  | fieldType {m : ObjectType} {f : Field} (hm : m ∈ S.document.models) (hf : f ∈ m.fields) :
      Resolved S f.typeName
  | link {m : ObjectType} {n : String} (hm : m ∈ S.document.models)
      (hclaimed : declares S.roots.mutations m.name = true) (hn : n ∈ Names.linkInputs m.name) :
      Resolved S n

theorem Resolved.references {S : Scope} {f : Field} (htype : S.Resolved f.typeName)
    (harguments : ∀ a ∈ f.arguments, S.Resolved a.type.name) :
    ∀ n ∈ f.references, S.Resolved n := by
  intro n hn
  rcases List.mem_cons.1 hn with rfl | hn
  · exact htype
  · obtain ⟨a, ha, rfl⟩ := List.mem_map.1 hn
    exact harguments a ha

namespace Indexed

variable {S : Scope} (h : S.Indexed)
include h

theorem exists_of_leadsToModel {f : Field} (hf : S.leadsToModel f = true) :
    ∃ m ∈ S.document.models, m.name = f.typeName :=
  (TypeIndex.isModel_iff h.index).1 hf

/-! ### What is declared -/

omit h in
theorem resolved_model {m : ObjectType} (hm : m ∈ S.document.models) : S.Resolved m.name := by
  obtain ⟨i, hi, -⟩ := Document.mem_models.1 hm
  apply Resolved.declared
  rw [Document.typeNames_extend]
  exact List.mem_append_left _ (Document.mem_typeNames_of_objectAt? hi)

/-- What is generated for a model is declared, by the generator or before it. -/
theorem resolved_of_mem_types {m : ObjectType} {t : TypeDefinition}
    (hm : m ∈ S.document.models) (ht : t ∈ S.types m) : S.Resolved t.name := by
  apply Resolved.declared
  rw [Document.typeNames_extend, List.mem_append]
  apply mem_keys_freshBy
  exact List.mem_flatMap.2 ⟨m, h.models_eq ▸ hm, ht⟩

theorem resolved_orderingType {m : ObjectType} (hm : m ∈ S.document.models)
    (hlocal : S.options.remote = false) : S.Resolved (Names.orderingType m.name) :=
  h.resolved_of_mem_types hm (t := .enum (S.ordering m)) (by simp [types, hlocal])

theorem resolved_filterType {m : ObjectType} (hm : m ∈ S.document.models)
    (hlocal : S.options.remote = false) : S.Resolved (Names.filterType m.name) :=
  h.resolved_of_mem_types hm (t := .input (S.filter m)) (by simp [types, hlocal])

theorem resolved_createInput {m : ObjectType} (hm : m ∈ S.document.models)
    (hgenerates : S.generatesMutations m = true) : S.Resolved (Names.createInput m.name) :=
  h.resolved_of_mem_types hm (t := .input (S.createInput m)) (by simp [types, hgenerates])

/-- Where one model gets its mutations, every other does, unless a mutation has its
name. -/
theorem resolved_linkInput {m related : ObjectType} (hgenerates : S.generatesMutations m = true)
    (hm : related ∈ S.document.models) {n : String} (hn : n ∈ Names.linkInputs related.name) :
    S.Resolved n := by
  by_cases hclaimed : declares S.roots.mutations related.name = true
  · exact .link hm hclaimed hn
  · have hrelated : S.generatesMutations related = true := by
      simp only [generatesMutations, Bool.and_eq_true] at hgenerates ⊢
      exact ⟨hgenerates.1, by simpa using hclaimed⟩
    have hnested : ∀ n ∈ (nestedInputs related.name).map InputType.name, S.Resolved n := by
      intro n hn
      obtain ⟨i, hi, rfl⟩ := List.mem_map.1 hn
      apply h.resolved_of_mem_types hm (t := .input i)
      simp [types, hrelated, hi]
    simp only [Names.linkInputs, List.mem_cons, List.not_mem_nil, or_false] at hn
    rcases hn with rfl | rfl | rfl
    · exact hnested _ (by simp [nestedInputs])
    · exact hnested _ (by simp [nestedInputs])
    · apply h.resolved_of_mem_types hm (t := .input (whereUniqueInput related))
      simp [types, hrelated]

/-! ### Arguments -/

omit h in
theorem resolved_valueArguments {m : ObjectType} (hm : m ∈ S.document.models) :
    ∀ a ∈ S.valueArguments m, S.Resolved a.type.name := by
  intro a ha
  obtain ⟨f, hf, ha⟩ := List.mem_flatMap.1 ha
  have htype : S.Resolved f.type.stripNonNull.name := by
    rw [TypeRef.stripNonNull_name]
    exact .fieldType hm (List.mem_filter.1 hf).1
  simp only [List.mem_cons, List.not_mem_nil, or_false] at ha
  rcases ha with rfl | rfl <;> exact htype

omit h in
theorem resolved_pageArguments : ∀ a ∈ pageArguments, S.Resolved a.type.name := by
  intro a ha
  apply Resolved.builtIn
  simp only [pageArguments, List.mem_cons, List.not_mem_nil, or_false] at ha
  rcases ha with rfl | rfl | rfl | rfl <;> decide

theorem resolved_queryArguments {m : ObjectType} (hm : m ∈ S.document.models)
    (hlocal : S.options.remote = false) : ∀ a ∈ S.queryArguments m, S.Resolved a.type.name := by
  intro a ha
  simp only [queryArguments, List.mem_append, List.mem_cons, List.not_mem_nil, or_false] at ha
  rcases ha with (ha | rfl | rfl) | ha
  · exact resolved_valueArguments hm a ha
  · exact h.resolved_filterType hm hlocal
  · exact h.resolved_orderingType hm hlocal
  · exact resolved_pageArguments a ha

/-- An argument of a rebuilt field was there, or what it refers to is resolved. -/
theorem resolved_rebuildField (hlocal : S.options.remote = false) {f : Field} {a : InputValue}
    (ha : a ∈ (S.rebuildField f).arguments) : a ∈ f.arguments ∨ S.Resolved a.type.name := by
  unfold rebuildField relationArguments? at ha
  cases hrelated : S.model? f.typeName with
  | none =>
    rw [hrelated] at ha
    exact .inl ha
  | some related =>
    right
    have hm := (h.name_of_model? hrelated).1
    rw [hrelated] at ha
    simp only [Option.map_some, List.mem_append] at ha
    have hfilter := h.resolved_filterType hm hlocal
    have hordering := h.resolved_orderingType hm hlocal
    rcases ha with ha | ha
    · exact resolved_valueArguments hm a ha
    · split at ha
      · simp only [List.mem_append, List.mem_cons, List.not_mem_nil, or_false] at ha
        rcases ha with (rfl | rfl) | ha
        · exact hfilter
        · exact hordering
        · exact resolved_pageArguments a ha
      · simp only [List.mem_cons, List.not_mem_nil, or_false] at ha
        rcases ha with rfl | rfl
        · exact hordering
        · exact hfilter

/-! ### Types -/

theorem resolved_fieldFilters (hlocal : S.options.remote = false) {m : ObjectType}
    (hm : m ∈ S.document.models) {f : Field} (hf : f ∈ m.fields) :
    ∀ a ∈ S.fieldFilters f, S.Resolved a.type.name := by
  intro a ha
  unfold fieldFilters at ha
  split at ha
  · cases ha
  · split at ha
    · split at ha
      · next hleads =>
        obtain ⟨related, hrelated, hname⟩ := h.exists_of_leadsToModel hleads
        obtain ⟨suffix, -, rfl⟩ := List.mem_map.1 ha
        show S.Resolved (Names.filterType f.typeName)
        rw [← hname]
        exact h.resolved_filterType hrelated hlocal
      · cases ha
    · split at ha
      · cases ha
      · have hname : a.type.name = f.typeName := by
          simp only [scalarFilters, List.mem_append, List.mem_cons, List.not_mem_nil, or_false,
            List.mem_map] at ha
          rcases ha with (rfl | rfl | rfl | rfl) | ⟨suffix, -, rfl⟩ <;> rfl
        rw [hname]
        exact .fieldType hm hf

theorem resolved_createField {m : ObjectType} (hm : m ∈ S.document.models)
    (hgenerates : S.generatesMutations m = true) {f : Field} (hf : f ∈ m.fields) :
    ∀ a ∈ S.createField? f, S.Resolved a.type.name := by
  intro a ha
  unfold createField? at ha
  split at ha
  · cases ha
  · split at ha
    · split at ha
      · next hleads =>
        cases ha
        obtain ⟨related, hrelated, hname⟩ := h.exists_of_leadsToModel hleads
        apply h.resolved_linkInput hgenerates hrelated
        show Names.createNestedInput f.typeName _ ∈ _
        rw [hname]
        cases f.type.isList <;> simp [Names.linkInputs, Arity.of]
      · cases ha
    · split at ha
      · cases ha
      · cases ha
        exact .fieldType hm hf

theorem resolved_nestedInputs {m : ObjectType} (hm : m ∈ S.document.models)
    (hgenerates : S.generatesMutations m = true) {i : InputType} (hi : i ∈ nestedInputs m.name) :
    ∀ a ∈ i.fields, S.Resolved a.type.name := by
  have hcreate := h.resolved_createInput hm hgenerates
  have hconnect : S.Resolved (Names.whereUniqueInput m.name) :=
    h.resolved_linkInput hgenerates hm (by simp [Names.linkInputs])
  intro a ha
  simp only [nestedInputs, List.mem_cons, List.not_mem_nil, or_false] at hi
  rcases hi with rfl | rfl | rfl | rfl <;>
    simp only [List.mem_cons, List.not_mem_nil, or_false] at ha <;>
    rcases ha with rfl | rfl
  all_goals first | exact hcreate | exact hconnect

/-- Everything that a type generated for a model refers to is resolved. -/
theorem resolved_types {m : ObjectType} (hm : m ∈ S.document.models) {t : TypeDefinition}
    (ht : t ∈ S.types m) : ∀ n ∈ t.references, S.Resolved n := by
  intro n hn
  unfold types at ht
  rcases List.mem_append.1 ht with ht | ht
  · split at ht
    · cases ht
    · next hlocal =>
      have hlocal : S.options.remote = false := by simpa using hlocal
      simp only [List.mem_cons, List.not_mem_nil, or_false] at ht
      rcases ht with rfl | rfl
      · cases hn
      · obtain ⟨a, ha, rfl⟩ := List.mem_map.1 hn
        simp only [filter, List.mem_append, List.mem_cons, List.not_mem_nil, or_false,
          List.mem_flatMap] at ha
        rcases ha with (rfl | rfl) | ⟨f, hf, ha⟩
        · exact h.resolved_filterType hm hlocal
        · exact h.resolved_filterType hm hlocal
        · exact h.resolved_fieldFilters hlocal hm hf a ha
  · split at ht
    · next hgenerates =>
      simp only [List.mem_append, List.mem_map, List.mem_cons, List.not_mem_nil, or_false] at ht
      rcases ht with ⟨i, hi, rfl⟩ | rfl | rfl
      · obtain ⟨a, ha, rfl⟩ := List.mem_map.1 hn
        exact h.resolved_nestedInputs hm hgenerates hi a ha
      · obtain ⟨a, ha, rfl⟩ := List.mem_map.1 hn
        obtain ⟨f, hf, hfa⟩ := List.mem_filterMap.1 ha
        exact h.resolved_createField hm hgenerates hf a hfa
      · obtain ⟨a, ha, rfl⟩ := List.mem_map.1 hn
        obtain ⟨f, hf, rfl⟩ := List.mem_map.1 ha
        have hname : (InputValue.of f.name (if f.type.isList then
            .list (.named f.typeName) else .named f.typeName)).type.name = f.typeName := by
          cases f.type.isList <;> rfl
        rw [hname]
        exact .fieldType hm (List.mem_filter.1 hf).1
    · cases ht

/-! ### Root fields -/

theorem resolved_listQuery {m : ObjectType} (hm : m ∈ S.document.models)
    (hlocal : S.options.remote = false) : ∀ n ∈ (S.listQuery m).references, S.Resolved n :=
  Resolved.references (resolved_model hm) (h.resolved_queryArguments hm hlocal)

theorem resolved_localCreate {m : ObjectType} (hm : m ∈ S.document.models)
    (hgenerates : S.generatesMutations m = true) :
    ∀ n ∈ (localCreate m).references, S.Resolved n := by
  apply Resolved.references (resolved_model hm)
  intro a ha
  rw [List.mem_singleton.1 ha]
  exact h.resolved_createInput hm hgenerates

omit h in
theorem resolved_remoteCreate {m : ObjectType} (hm : m ∈ S.document.models) :
    ∀ n ∈ (remoteCreate m).references, S.Resolved n := by
  apply Resolved.references (resolved_model hm)
  intro a ha
  obtain ⟨f, hf, rfl⟩ := List.mem_map.1 ha
  exact .fieldType hm (List.mem_filter.1 hf).1

theorem resolved_relationMutation {m : ObjectType} (hm : m ∈ S.document.models)
    (hgenerates : S.generatesMutations m = true) {f g : Field}
    (hg : S.relationMutation? m f = some g) : ∀ n ∈ g.references, S.Resolved n := by
  obtain ⟨related, hrelated, hg⟩ := Option.bind_eq_some_iff.1 hg
  obtain ⟨statement, -, rfl⟩ := Option.map_eq_some_iff.1 hg
  have hlink : ∀ r ∈ S.document.models, S.Resolved (Names.whereUniqueInput r.name) :=
    fun r hr => h.resolved_linkInput hgenerates hr (by simp [Names.linkInputs])
  have htype : S.Resolved "Boolean" := .builtIn (by decide)
  apply Resolved.references htype
  intro a ha
  simp only [nativeField, List.mem_cons, List.not_mem_nil, or_false] at ha
  rcases ha with rfl | rfl
  · exact hlink m hm
  · exact hlink related (h.name_of_model? hrelated).1

theorem resolved_mutations {m : ObjectType} (hm : m ∈ S.document.models)
    (hgenerates : S.generatesMutations m = true) {f : Field} (hf : f ∈ S.mutations m) :
    ∀ n ∈ f.references, S.Resolved n := by
  unfold mutations at hf
  split at hf
  · rcases List.mem_cons.1 hf with rfl | hf
    · exact resolved_remoteCreate hm
    · obtain ⟨g, -, hg⟩ := List.mem_filterMap.1 hf
      exact h.resolved_relationMutation hm hgenerates hg
  · rw [List.mem_singleton.1 hf]
    exact h.resolved_localCreate hm hgenerates

/-! ### All that is added -/

omit h in
theorem mem_of_mem_newFields {root : Option RootFields} {fields : List Field} {f : Field}
    (hf : f ∈ newFields root fields) : f ∈ fields := by
  unfold newFields at hf
  split at hf
  · cases hf
  · exact Document.mem_of_mem_freshBy hf

/-- Whatever a new root field refers to is resolved. -/
theorem resolved_addedFields {i : Nat} {f : Field} (hf : f ∈ S.addedFields i) :
    ∀ n ∈ f.references, S.Resolved n := by
  have hqueries : f ∈ S.additions.queries → ∀ n ∈ f.references, S.Resolved n := by
    intro hf
    have hf := mem_of_mem_newFields hf
    split at hf
    · cases hf
    · next hlocal =>
      simp only [Bool.or_eq_true, not_or, Bool.not_eq_true] at hlocal
      obtain ⟨m, hm, rfl⟩ := List.mem_map.1 hf
      exact h.resolved_listQuery (h.models_eq ▸ hm) hlocal.1
  have hmutations : f ∈ S.additions.mutations → ∀ n ∈ f.references, S.Resolved n := by
    intro hf
    obtain ⟨m, hm, hf⟩ := List.mem_flatMap.1 (mem_of_mem_newFields hf)
    obtain ⟨hm, hgenerates⟩ := List.mem_filter.1 hm
    exact h.resolved_mutations (h.models_eq ▸ hm) hgenerates hf
  unfold addedFields at hf
  rcases List.mem_append.1 hf with hf | hf
  · split at hf
    · exact hqueries hf
    · cases hf
  · split at hf
    · exact hmutations hf
    · cases hf

/-- Whatever a new type refers to is resolved. -/
theorem resolved_additions {t : TypeDefinition} (ht : t ∈ S.additions.types) :
    ∀ n ∈ t.references, S.Resolved n := by
  obtain ⟨m, hm, ht⟩ := List.mem_flatMap.1 (Document.mem_of_mem_freshBy ht)
  exact h.resolved_types (h.models_eq ▸ hm) ht

end Indexed

end Scope

end GraphqlCypher.Schema
