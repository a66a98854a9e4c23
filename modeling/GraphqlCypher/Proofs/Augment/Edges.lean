import GraphqlCypher.Proofs.Augment.Members

/-! The edges that a document declares.

An edge is a relation field of a model: where it starts, the field, where it leads, and what the
field says of it. No pass of an augmentation touches one: normalizing moves fields and adds an
`id`, rebuilding replaces arguments, and no field that is generated is a relation. So an
augmented document has the edges of the document it was made from (`Document.mem_edges_augment`).
If the fields of every model have names of their own, a model and a field name one edge
(`Document.edge_unique`). -/
namespace GraphqlCypher.Schema

structure Edge where
  model : String
  field : String
  related : String
  info : Option RelationInfo
deriving DecidableEq, Repr

/-- The mutation that puts an edge. -/
def Edge.mutation (e : Edge) : String := Names.relationMutation e.model e.field

def ObjectType.edge (t : ObjectType) (f : Field) : Edge :=
  ⟨t.name, f.name, f.typeName, f.relationInfo?⟩

def ObjectType.edges (t : ObjectType) : List Edge := (t.fields.filter Field.isRelation).map t.edge

def Document.edges (d : Document) : List Edge := d.models.flatMap ObjectType.edges

theorem ObjectType.mem_edges {t : ObjectType} {e : Edge} :
    e ∈ t.edges ↔ ∃ f ∈ t.fields, f.isRelation = true ∧ t.edge f = e := by
  simp only [edges, List.mem_map, List.mem_filter, and_assoc]

theorem Document.mem_edges {d : Document} {e : Edge} :
    e ∈ d.edges ↔ ∃ m ∈ d.models, ∃ f ∈ m.fields, f.isRelation = true ∧ m.edge f = e := by
  simp only [edges, List.mem_flatMap, ObjectType.mem_edges]

/-- A model and one of its fields name an edge. -/
theorem Document.edge_unique {d : Document} {x : TypeIndex} (hx : TypeIndex.ofDocument d = .ok x)
    (hdistinct : ∀ m ∈ d.models, (m.fields.map Field.name).Nodup) {e e' : Edge} (he : e ∈ d.edges)
    (he' : e' ∈ d.edges) (hmodel : e.model = e'.model) (hfield : e.field = e'.field) : e = e' := by
  obtain ⟨m, hm, f, hf, -, rfl⟩ := mem_edges.1 he
  obtain ⟨m', hm', f', hf', -, rfl⟩ := mem_edges.1 he'
  obtain rfl := TypeIndex.eq_of_name_eq hx hm hm' hmodel
  rw [List.inj_on_of_nodup_map (hdistinct m hm) hf hf' hfield]

/-! ### Normalizing -/

theorem ObjectType.edges_reduceNestedLists (t : ObjectType) :
    t.reduceNestedLists.edges = t.edges := by
  have hreduced : ∀ f : Field, t.edge { f with type := f.type.reduceNestedList } = t.edge f := by
    intro f
    simp only [edge, Field.typeName, TypeRef.reduceNestedList_name]
    rfl
  rw [edges, reduceNestedLists, List.filter_map, List.map_map]
  exact List.map_congr_left fun f _ => hreduced f

theorem ObjectType.mem_edges_normalize {o : AugmentOptions} {t t' : ObjectType}
    (h : t.normalize o = .ok t') (e : Edge) : e ∈ t'.edges ↔ e ∈ t.edges := by
  obtain ⟨fields, rfl⟩ := (normalize_ok h).1
  rw [← t.edges_reduceNestedLists]
  rcases fields_of_normalize h with hperm | ⟨hfields, -⟩
  · exact ((hperm.filter Field.isRelation).map t.edge).mem_iff
  · have hid : (generatedIdField o.remote).isRelation = false := by
      cases o.remote <;> rfl
    simp only at hfields
    simp only [edges, hfields, List.filter_cons_of_neg (by simpa using hid)]
    rfl

/-- A field of a root that was settled was there, or is the `id` of a model. -/
theorem ObjectType.mem_names_of_settled {o : AugmentOptions} {t : ObjectType} {name : String}
    (h : name ∈ (t.settled o).fields.map Field.name) :
    name ∈ t.fields.map Field.name ∨ t.isModel = true ∧ name = Names.id := by
  unfold settled normalized at h
  split at h
  · next hmodel =>
    split at h
    · next t' ht' =>
      rcases fields_of_normalize ht' with hperm | ⟨hfields, -⟩
      · rw [(hperm.map Field.name).mem_iff, t.names_reduceNestedLists] at h
        exact .inl h
      · rw [hfields, List.map_cons, t.names_reduceNestedLists] at h
        rcases List.mem_cons.1 h with h | h
        · exact .inr ⟨hmodel, h⟩
        · exact .inl h
    · exact .inl h
  · exact .inl h

/-! ### Extending -/

namespace Scope

variable (S : Scope)

theorem edges_rebuild (m : ObjectType) : (S.rebuild m).edges = m.edges := by
  have hinternal : (if m.fields.any Field.isInternalId = true then []
      else [({ name := Names.internalId, type := .named "Int" } : Field)]).filter
        Field.isRelation = [] := by
    split <;> rfl
  have hrebuilt : ∀ f, m.edge (S.rebuildField f) = m.edge f ∧
      (S.rebuildField f).isRelation = f.isRelation := by
    intro f
    obtain ⟨arguments, hf⟩ := S.rebuildField_eq f
    rw [hf]
    exact ⟨rfl, rfl⟩
  have hfields : (S.rebuild m).fields.filter Field.isRelation =
      (m.fields.filter Field.isRelation).map S.rebuildField := by
    rw [rebuild, List.filter_append, hinternal, List.append_nil, List.filter_map]
    exact congrArg _ (List.filter_congr fun f _ => (hrebuilt f).2)
  rw [ObjectType.edges, hfields, List.map_map]
  exact List.map_congr_left fun f _ => (hrebuilt f).1

theorem edges_remade (m : ObjectType) : (S.remade m).edges = m.edges := by
  unfold remade
  split
  · rfl
  · exact S.edges_rebuild m

/-- No field that a root takes is a relation. -/
theorem isRelation_of_mem_addedFields {i : Nat} {f : Field} (h : f ∈ S.addedFields i) :
    f.isRelation = false := by
  rw [Field.isRelation]
  rcases directives_of_mem_addedFields h with hf | ⟨statement, hf⟩ <;> rw [hf] <;> rfl

theorem edges_extended (i : Nat) {t : ObjectType} (ht : t.isModel = true) :
    (S.extended i t).edges = t.edges := by
  have hadded : (S.addedFields i).filter Field.isRelation = [] :=
    List.filter_eq_nil_iff.2 fun f hf => by simp [S.isRelation_of_mem_addedFields hf]
  rw [← S.edges_remade t, extended, if_pos ht]
  simp only [ObjectType.edges, List.filter_append, hadded, List.append_nil]
  rfl

end Scope

namespace Document

theorem edges_extend (S : Scope) (d : Document) : (d.extend S).edges = d.edges := by
  rw [edges, models_extend_eq, List.flatMap_map, edges, models, List.flatMap_map]
  exact List.flatMap_congr fun p hp => S.edges_extended p.1 (mem_placedModels.1 hp).2

variable {o : AugmentOptions} {d d' : Document}

theorem Prepares.mem_edges {S : Scope} (h : d.Prepares o S) (e : Edge) :
    e ∈ S.document.edges ↔ e ∈ d.edges := by
  simp only [edges, List.mem_flatMap, h.models_eq, List.mem_map, exists_exists_and_eq_and]
  exact exists_congr fun m => and_congr_right fun hm =>
    ObjectType.mem_edges_normalize (h.normalize_ok hm) e

/-- **An augmentation keeps the edges** and adds none. -/
theorem mem_edges_augment (h : d.augment o = .ok d') (e : Edge) : e ∈ d'.edges ↔ e ∈ d.edges := by
  rcases prepares_of_augment h with ⟨-, rfl⟩ | ⟨S, hS, rfl⟩
  · exact Iff.rfl
  · rw [edges_extend]
    exact hS.mem_edges e

end Document

end GraphqlCypher.Schema
