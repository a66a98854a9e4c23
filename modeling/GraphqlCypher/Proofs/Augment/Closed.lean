import GraphqlCypher.Proofs.Augment.References
import GraphqlCypher.Proofs.Augment.Roots

/-! What an augmentation adds refers to nothing unknown.

Definitions are compared place by place, and fields of one name by their rank, so that
what a document introduces over another is said without a look at how it came about
(`Document.Introduces`). Every type name that an augmentation introduces is declared by
its result, is a scalar that the generators know, or was the type of a field of a model
already (`augment_closed`). The exception is what links to a model whose name a mutation
has taken before the generators ran (`Document.ClaimsMutation`). -/
namespace GraphqlCypher.Schema

/-- Of the fields of one name, the one of a rank. -/
def rankedField (fields : List Field) (name : String) (k : Nat) : Option Field :=
  (fields.filter (·.name == name))[k]?

theorem rankedField_append {fields more : List Field} {name : String} {k : Nat} {f : Field}
    (h : rankedField (fields ++ more) name k = some f) :
    rankedField fields name k = some f ∨ f ∈ more := by
  unfold rankedField at h ⊢
  rw [List.filter_append, List.getElem?_append] at h
  split at h
  · exact .inl h
  · exact .inr (List.mem_of_mem_filter (List.mem_of_getElem? h))

theorem rankedField_map {g : Field → Field} (hname : ∀ f, (g f).name = f.name)
    (fields : List Field) (name : String) (k : Nat) :
    rankedField (fields.map g) name k = (rankedField fields name k).map g := by
  unfold rankedField
  rw [List.filter_map, List.getElem?_map]
  congr 2
  exact List.filter_congr fun f _ => by rw [Function.comp_apply, hname]

/-! ### What normalizing and extending do to a field -/

namespace ObjectType

variable {o : AugmentOptions}

/-- Only the first `id` field changes its place, and only a missing one is new. -/
theorem rankedField_withIdInFront {remote : Bool} {t t' : ObjectType}
    (h : t.withIdInFront remote = .ok t') {name : String} {k : Nat} {f : Field}
    (hf : rankedField t'.fields name k = some f) :
    rankedField t.fields name k = some f ∨ f = generatedIdField remote := by
  unfold withIdInFront at h
  split at h
  · next hnone =>
    cases h
    unfold rankedField at hf ⊢
    by_cases hid : name = Names.id
    · right
      have hempty : t.fields.filter (·.name == name) = [] := by
        rw [hid]
        exact List.filter_eq_nil_iff.2 fun g hg => List.find?_eq_none.1 hnone g hg
      have hmem := List.mem_of_getElem? hf
      rw [List.filter_cons, hempty] at hmem
      split at hmem
      · exact List.mem_singleton.1 hmem
      · cases hmem
    · left
      rwa [List.filter_cons_of_neg (by simpa [generatedIdField] using Ne.symm hid)] at hf
  · next g hg =>
    split at h
    · cases h
      left
      have hid : g.name = Names.id := by simpa using List.find?_some hg
      obtain ⟨before, after, hfields, herase, hbefore⟩ := exists_around_id hg
      unfold rankedField at hf ⊢
      rw [← hf, herase, hfields]
      congr 1
      simp only [List.filter_append, List.filter_cons]
      split
      · next hn =>
        have hname : name = Names.id := by rw [← hid]; exact (beq_iff_eq.1 hn).symm
        have hnone : before.filter (·.name == name) = [] := by
          rw [hname]
          exact List.filter_eq_nil_iff.2 fun x hx => by simpa using hbefore x hx
        rw [hnone, List.nil_append, List.nil_append]
      · rfl
    · cases h

/-- A field of a settled type has the arguments that it had, or it is a new `id`. -/
theorem rankedField_settled {t : ObjectType} {name : String} {k : Nat} {f : Field}
    (hf : rankedField (t.settled o).fields name k = some f) :
    (∃ g, rankedField t.fields name k = some g ∧ f.arguments = g.arguments) ∨
      f = generatedIdField o.remote := by
  have hreduced : rankedField t.reduceNestedLists.fields name k = some f →
      ∃ g, rankedField t.fields name k = some g ∧ f.arguments = g.arguments := by
    intro h
    rw [reduceNestedLists,
      rankedField_map (g := fun f => { f with type := f.type.reduceNestedList }) fun _ => rfl] at h
    obtain ⟨g, hg, rfl⟩ := Option.map_eq_some_iff.1 h
    exact ⟨g, hg, rfl⟩
  unfold settled normalized at hf
  split at hf
  · split at hf
    · next t' ht' =>
      unfold normalize at ht'
      split at ht'
      · exact (rankedField_withIdInFront ht' hf).imp_left hreduced
      · cases ht'
        exact .inl (hreduced hf)
    · exact .inl ⟨f, hf, rfl⟩
  · exact .inl ⟨f, hf, rfl⟩

/-- The fields of a model in normal form are of the types that they were of. -/
theorem typeName_of_mem_normalized {t : ObjectType} {f : Field}
    (hf : f ∈ (t.normalized o).fields) :
    f.typeName ∈ t.fields.map Field.typeName ∨ f.typeName = "ID" := by
  have hreduced : ∀ g ∈ t.reduceNestedLists.fields, g.typeName ∈ t.fields.map Field.typeName := by
    intro g hg
    obtain ⟨u, hu, rfl⟩ := List.mem_map.1 hg
    exact List.mem_map.2 ⟨u, hu, (u.type.reduceNestedList_name).symm⟩
  unfold normalized at hf
  split at hf
  · next t' ht' =>
    unfold normalize at ht'
    split at ht'
    · obtain ⟨g, rest, rfl, -, -, hg, hrest⟩ := withIdInFront_ok ht'
      rcases List.mem_cons.1 hf with rfl | hf
      · rcases hg with hg | rfl
        · exact .inl (hreduced f hg)
        · exact .inr rfl
      · exact .inl (hreduced f (hrest.mem hf))
    · cases ht'
      exact .inl (hreduced f hf)
  · exact .inl (List.mem_map_of_mem hf)

end ObjectType

theorem Scope.rankedField_extended (S : Scope) {i : Nat} {t : ObjectType} {name : String} {k : Nat}
    {f : Field} (hf : rankedField (S.extended i t).fields name k = some f) :
    (∃ g, rankedField t.fields name k = some g ∧
        (f = g ∨ S.options.remote = false ∧ f = S.rebuildField g)) ∨
      f = { name := Names.internalId, type := .named "Int" } ∨ f ∈ S.addedFields i := by
  have hname : ∀ g, (S.rebuildField g).name = g.name := by
    intro g
    obtain ⟨arguments, hg⟩ := S.rebuildField_eq g
    rw [hg]
  unfold extended at hf
  rcases rankedField_append hf with hf | hf
  · split at hf
    · unfold remade at hf
      split at hf
      · exact .inl ⟨f, hf, .inl rfl⟩
      · next hlocal =>
        unfold rebuild at hf
        rcases rankedField_append hf with hf | hf
        · rw [rankedField_map hname] at hf
          obtain ⟨g, hg, rfl⟩ := Option.map_eq_some_iff.1 hf
          exact .inl ⟨g, hg, .inr ⟨by simpa using hlocal, rfl⟩⟩
        · split at hf
          · cases hf
          · exact .inr (.inl (List.mem_singleton.1 hf))
    · exact .inl ⟨f, hf, .inl rfl⟩
  · exact .inr (.inr hf)

/-! ### What is introduced -/

namespace Document

/-- A type name to which a document refers in what another does not have: in a
definition, for a root, in a field of a type or in an argument of a field. -/
inductive Introduces (d d' : Document) : String → Prop where
  | definition {i : Nat} {x : Definition} {n : String} (hi : d.length ≤ i) (hx : d'[i]? = some x)
      (hn : n ∈ x.references) : Introduces d d' n
  | root {i : Nat} {r r' : Roots} {entry : String × String} (hr : d[i]? = some (.roots r))
      (hr' : d'[i]? = some (.roots r')) (hentry : entry ∈ r'.entries) (hnew : entry ∉ r.entries) :
      Introduces d d' entry.2
  | field {i : Nat} {t t' : ObjectType} {name : String} {k : Nat} {f : Field} {n : String}
      (ht : d.objectAt? i = some t) (ht' : d'.objectAt? i = some t')
      (hnew : rankedField t.fields name k = none) (hf : rankedField t'.fields name k = some f)
      (hn : n ∈ f.references) : Introduces d d' n
  | argument {i : Nat} {t t' : ObjectType} {name : String} {k : Nat} {f g : Field} {a : InputValue}
      (ht : d.objectAt? i = some t) (ht' : d'.objectAt? i = some t')
      (hg : rankedField t.fields name k = some g) (hf : rankedField t'.fields name k = some f)
      (ha : a ∈ f.arguments) (hnew : a ∉ g.arguments) : Introduces d d' a.type.name

theorem not_introduces_self (d : Document) (n : String) : ¬ d.Introduces d n := by
  intro h
  cases h with
  | definition hi hx hn =>
    rw [List.getElem?_eq_none hi] at hx
    cases hx
  | root hr hr' hentry hnew =>
    rw [hr] at hr'
    cases hr'
    exact hnew hentry
  | field ht ht' hnew hf hn =>
    rw [ht] at ht'
    cases ht'
    rw [hnew] at hf
    cases hf
  | argument ht ht' hg hf ha hnew =>
    rw [ht] at ht'
    cases ht'
    rw [hg] at hf
    cases hf
    exact hnew ha

/-- The last mutation type has a field of the name, once the document is prepared and
before anything is generated. -/
def ClaimsMutation (o : AugmentOptions) (d : Document) (name : String) : Prop :=
  ∃ prepared t, (d.scaffold o).normalize o = .ok prepared ∧
    prepared.lastObject? Names.mutation = some t ∧ name ∈ t.fields.map Field.name

namespace Prepares

variable {o : AugmentOptions} {d : Document} {S : Scope} (h : d.Prepares o S)
include h

theorem claimsMutation {name : String} (hdeclares : Scope.declares S.roots.mutations name = true) :
    d.ClaimsMutation o name := by
  rw [h.roots, Scope.declares, RootIndex.ofDocument] at hdeclares
  cases hr : RootFields.find? S.document Names.mutation with
  | none =>
    rw [hr] at hdeclares
    cases hdeclares
  | some r =>
    rw [hr] at hdeclares
    obtain ⟨t, -, -, hfields, hlast⟩ := RootFields.find?_some hr
    refine ⟨S.document, t, h.normalized, ?_, ?_⟩
    · rw [lastObject?_eq, hlast]
      rfl
    · rw [← RootFields.mem_keys_fields, ← hfields]
      exact (Entries.contains_iff_mem_keys ..).1 hdeclares

/-- What stands in a place of the extended document. -/
theorem getElem?_extend {i : Nat} {x : Definition} (hx : (S.document.extend S)[i]? = some x) :
    (∃ y, (d.scaffold o)[i]? = some y ∧
        x = y.mapObject fun t => S.extended i (t.settled o)) ∨
      ∃ t ∈ S.additions.types, x = .type t := by
  rw [extend_eq, List.getElem?_append] at hx
  split at hx
  · left
    rw [getElem?_editObjects, h.document_eq, getElem?_editObjects, Option.map_map] at hx
    obtain ⟨y, hy, rfl⟩ := Option.map_eq_some_iff.1 hx
    exact ⟨y, hy, y.mapObject_mapObject _ _⟩
  · right
    obtain ⟨t, ht, rfl⟩ := List.mem_map.1 (List.mem_of_getElem? hx)
    exact ⟨t, ht, rfl⟩

theorem objectAt?_extend {i : Nat} {t t' : ObjectType} (ht : d.objectAt? i = some t)
    (ht' : (S.document.extend S).objectAt? i = some t') : t' = S.extended i (t.settled o) := by
  have hi : (S.document.extend S).objectAt? i = some (S.extended i (t.settled o)) := by
    rw [extend_eq]
    apply objectAt?_append_left
    rw [objectAt?_editObjects, h.objectAt?_eq, objectAt?_of_lt (objectAt?_lt ht), ht]
    rfl
  exact Option.some.inj (ht'.symm.trans hi)

theorem resolved_root {name : String} (hobject : (d.scaffold o).hasObject name = true) :
    S.Resolved name := by
  obtain ⟨i, t, ht, rfl⟩ := hasObject_iff.1 hobject
  apply Scope.Resolved.declared
  rw [typeNames_extend, h.document_eq, typeNames_editObjects]
  · exact List.mem_append_left _ (mem_typeNames_of_objectAt? ht)
  · intro i t
    obtain ⟨fields, hfields⟩ := t.settled_eq o
    rw [hfields]

/-- A root that is named for the schema is there. -/
theorem resolved_complete {r : Roots} {entry : String × String}
    (hentry : entry ∈ (r.complete o).entries) (hnew : entry ∉ r.entries) : S.Resolved entry.2 := by
  have hscaffolded := scaffolded_scaffold o d
  have hadded : (o.query = true ∧ entry.2 = Names.query) ∨
      (o.mutation = true ∧ entry.2 = Names.mutation) := by
    obtain ⟨ds, q, m, s⟩ := r
    simp only [Roots.entries, Roots.complete, List.mem_append, not_or] at hentry hnew
    obtain ⟨⟨hq, hm⟩, hs⟩ := hnew
    rcases hentry with (hentry | hentry) | hentry
    · left
      cases q with
      | some n => exact absurd hentry hq
      | none => cases ho : o.query <;> simp_all
    · right
      cases m with
      | some n => exact absurd hentry hm
      | none => cases ho : o.mutation <;> simp_all
    · exact absurd hentry hs
  rcases hadded with ⟨ho, hname⟩ | ⟨ho, hname⟩
  · rw [hname]
    exact h.resolved_root (hscaffolded.query ho)
  · rw [hname]
    exact h.resolved_root (hscaffolded.mutation ho)

/-! ### Each way to introduce a name -/

theorem resolved_definition {i : Nat} {x : Definition} (hi : d.length ≤ i)
    (hx : (S.document.extend S)[i]? = some x) : ∀ n ∈ x.references, S.Resolved n := by
  intro n hn
  rcases h.getElem?_extend hx with ⟨y, hy, rfl⟩ | ⟨t, ht, rfl⟩
  · obtain ⟨e, he, hscaffold⟩ := scaffold_eq o d
    rw [he, List.getElem?_append_right (by rw [length_rooted]; exact hi)] at hy
    rcases hscaffold y (List.mem_of_getElem? hy) with rfl | ⟨name, -, rfl⟩
    · obtain ⟨entry, hentry, rfl⟩ := List.mem_map.1 hn
      exact h.resolved_complete hentry List.not_mem_nil
    · -- a root type that was missing has the new fields and no others
      have hfields : (S.extended i (ObjectType.settled o { name })).fields = S.addedFields i := rfl
      simp only [Definition.mapObject, Definition.references, TypeDefinition.references, hfields]
        at hn
      obtain ⟨f, hf, hn⟩ := List.mem_flatMap.1 ((List.mem_append.1 hn).resolve_left (by
        obtain ⟨fields, hextended⟩ := S.extended_eq i (ObjectType.settled o { name })
        rw [hextended]
        exact List.not_mem_nil))
      exact h.indexed.resolved_addedFields hf n hn
  · exact h.indexed.resolved_additions ht n hn

theorem resolved_field {i : Nat} {t : ObjectType} {name : String} {k : Nat} {f : Field}
    (hnew : rankedField t.fields name k = none)
    (hf : rankedField (S.extended i (t.settled o)).fields name k = some f) :
    ∀ n ∈ f.references, S.Resolved n := by
  rcases S.rankedField_extended hf with ⟨g, hg, hfg⟩ | rfl | hf
  · rcases ObjectType.rankedField_settled hg with ⟨u, hu, -⟩ | rfl
    · rw [hnew] at hu
      cases hu
    · have htype : S.Resolved "ID" := .builtIn (by decide)
      rcases hfg with rfl | ⟨hlocal, rfl⟩
      · exact Scope.Resolved.references htype fun a ha => absurd ha List.not_mem_nil
      · apply Scope.Resolved.references
        · obtain ⟨arguments, hrebuilt⟩ := S.rebuildField_eq (generatedIdField o.remote)
          rw [hrebuilt]
          exact htype
        · intro a ha
          exact (h.indexed.resolved_rebuildField hlocal ha).resolve_left List.not_mem_nil
  · have htype : S.Resolved "Int" := .builtIn (by decide)
    exact Scope.Resolved.references htype fun a ha => absurd ha List.not_mem_nil
  · exact h.indexed.resolved_addedFields hf

theorem resolved_argument {i : Nat} {t : ObjectType} {name : String} {k : Nat} {f g : Field}
    (hg : rankedField t.fields name k = some g)
    (hf : rankedField (S.extended i (t.settled o)).fields name k = some f) {a : InputValue}
    (ha : a ∈ f.arguments) (hnew : a ∉ g.arguments) : S.Resolved a.type.name := by
  rcases S.rankedField_extended hf with ⟨u, hu, hfu⟩ | rfl | hf
  · have hkept : a ∉ u.arguments := by
      rcases ObjectType.rankedField_settled hu with ⟨v, hv, hargs⟩ | rfl
      · rw [hg] at hv
        cases hv
        rwa [hargs]
      · exact List.not_mem_nil
    rcases hfu with rfl | ⟨hlocal, rfl⟩
    · exact absurd ha hkept
    · exact (h.indexed.resolved_rebuildField hlocal ha).resolve_left hkept
  · cases ha
  · exact h.indexed.resolved_addedFields hf _ (List.mem_cons_of_mem _ (List.mem_map_of_mem ha))

/-- Whatever extending introduces is resolved. -/
theorem resolved_of_introduces {n : String} (hn : d.Introduces (S.document.extend S) n) :
    S.Resolved n := by
  cases hn with
  | definition hi hx hn => exact h.resolved_definition hi hx n hn
  | @root i r r' entry hr hr' hentry hnew =>
    have hi : i < (d.rooted o).length := by
      rw [length_rooted]
      exact (List.getElem?_eq_some_iff.1 hr).1
    rcases h.getElem?_extend hr' with ⟨y, hy, hx⟩ | ⟨t, -, hx⟩
    · obtain ⟨e, he, -⟩ := scaffold_eq o d
      rw [he, List.getElem?_append_left hi] at hy
      rcases getElem?_rooted hy with hy | ⟨u, hu, rfl⟩
      · rw [hr] at hy
        cases hy
        cases hx
        exact absurd hentry hnew
      · rw [hr] at hu
        cases hu
        cases hx
        exact h.resolved_complete hentry hnew
    · cases hx
  | field ht ht' hnew hf hn =>
    rw [h.objectAt?_extend ht ht'] at hf
    exact h.resolved_field hnew hf _ hn
  | argument ht ht' hg hf ha hnew =>
    rw [h.objectAt?_extend ht ht'] at hf
    exact h.resolved_argument hg hf ha hnew

end Prepares

/-- **What is added refers to nothing unknown**: a type name that an augmentation
introduces is declared, or built in, or the type of a field of a model, or else it links to
a model whose name a mutation has taken. -/
theorem augment_closed {o : AugmentOptions} {d d' : Document} (h : d.augment o = .ok d')
    {n : String} (hn : d.Introduces d' n) :
    n ∈ d'.typeNames ∨ n ∈ builtInTypes ∨
      (∃ m ∈ d.models, n ∈ m.fields.map Field.typeName) ∨
        ∃ m ∈ d.models, d.ClaimsMutation o m.name ∧ n ∈ Names.linkInputs m.name := by
  rcases prepares_of_augment h with ⟨-, hself⟩ | ⟨S, hS, rfl⟩
  · rw [hself] at hn
    exact absurd hn (d.not_introduces_self n)
  · have hmodel : ∀ m ∈ S.document.models, ∃ u ∈ d.models, m = u.normalized o := by
      intro m hm
      rw [hS.models_eq] at hm
      obtain ⟨u, hu, rfl⟩ := List.mem_map.1 hm
      exact ⟨u, hu, rfl⟩
    cases hS.resolved_of_introduces hn with
    | declared hn => exact .inl hn
    | builtIn hn => exact .inr (.inl hn)
    | fieldType hm hf =>
      obtain ⟨u, hu, rfl⟩ := hmodel _ hm
      rcases ObjectType.typeName_of_mem_normalized hf with hf | hf
      · exact .inr (.inr (.inl ⟨u, hu, hf⟩))
      · rw [hf]
        exact .inr (.inl (by decide))
    | link hm hclaimed hn =>
      obtain ⟨u, hu, rfl⟩ := hmodel _ hm
      rw [u.normalized_name] at hclaimed hn
      exact .inr (.inr (.inr ⟨u, hu, hS.claimsMutation hclaimed, hn⟩))

theorem augment_closed_people :
    ∃ d, people.augment {} = .ok d ∧ people.Introduces d "PersonCreateManyInput" ∧
      ("PersonCreateManyInput" ∈ d.typeNames ∨ "PersonCreateManyInput" ∈ builtInTypes ∨
        (∃ m ∈ people.models, "PersonCreateManyInput" ∈ m.fields.map Field.typeName) ∨
          ∃ m ∈ people.models, people.ClaimsMutation {} m.name ∧
            "PersonCreateManyInput" ∈ Names.linkInputs m.name) := by
  have h : ∃ d, people.augment {} = .ok d ∧ people.Introduces d "PersonCreateManyInput" :=
    ⟨_, rfl, .definition (i := 10) (by decide) rfl (by decide)⟩
  obtain ⟨d, h, hn⟩ := h
  exact ⟨d, h, hn, augment_closed h hn⟩

/-- People own pets, and a mutation has the name of the pets. -/
def claimed : Document :=
  [.type (.object {
    name := "Person"
    directives := [Directive.bare Names.model]
    fields := [
      { name := "pets", type := .list (.named "Pet")
        directives := [⟨Names.relation, [("name", .string "OWNS"), ("direction", .enum "OUT")]⟩] }] }),
   .type (.object { name := "Pet", directives := [Directive.bare Names.model] }),
   .type (.object { name := Names.mutation, fields := [{ name := "Pet", type := .named "Pet" }] })]

-- The exception occurs: the input that creates a person links to pets by an unknown one.
example : ∃ d, claimed.augment {} = .ok d ∧ claimed.Introduces d "PetCreateManyInput" ∧
    "PetCreateManyInput" ∉ d.typeNames :=
  ⟨_, rfl, .definition (i := 11) (by decide) rfl (by decide), by decide⟩

end Document

end GraphqlCypher.Schema
