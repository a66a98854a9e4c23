import GraphqlCypher.Catalog.Basic
import GraphqlCypher.Proofs.Entries

/-! The relations of a catalog.

Whatever relation a model of a catalog has, the mutation that puts its edges is in the
catalog too. So a nested mutation can only fail at its targets, never at its edges. -/
namespace GraphqlCypher

open Schema

namespace Catalog

theorem model_ok_iff (c : Catalog) (name : String) (m : ModelInfo) :
    c.model name = .ok m ↔ Entries.get? c.models name = some m := by
  unfold model
  cases Entries.get? c.models name with
  | none => simp
  | some m' => simp

theorem mutation_ok_iff (c : Catalog) (name : String) (m : MutationInfo) :
    c.mutation name = .ok m ↔ Entries.get? c.mutations name = some m := by
  unfold mutation
  cases Entries.get? c.mutations name with
  | none => simp
  | some m' => simp

/-- Every relation of a model has the mutation that puts its edges. -/
def HasRelations (c : Catalog) : Prop :=
  ∀ model info field related, c.model model = .ok info → info.related? field = some related →
    ∃ m, c.mutation (Names.relationMutation model field) = .ok m

/-- What a catalog knows of a model comes from a type of that name. -/
theorem mem_of_model {c : Catalog} {types : List ObjectType} {name : String} {info : ModelInfo}
    (hc : c.models = Entries.ofList (types.map fun m => (m.name, ModelInfo.ofModel m)))
    (h : c.model name = .ok info) : ∃ m ∈ types, m.name = name ∧ ModelInfo.ofModel m = info := by
  rw [model_ok_iff, hc] at h
  obtain ⟨m, hm, e⟩ := List.mem_map.1 (Entries.mem_ofList (Entries.mem_of_get? h))
  cases e
  exact ⟨m, hm, rfl, rfl⟩

/-- A relation of a model is one of its fields. -/
theorem mem_of_related {m : ObjectType} {field related : String}
    (h : (ModelInfo.ofModel m).related? field = some related) :
    ∃ f ∈ m.fields.filter Field.isRelation, f.name = field ∧ f.typeName = related := by
  obtain ⟨f, hf, e⟩ := List.mem_map.1 (Entries.mem_ofList (Entries.mem_of_get? h))
  cases e
  exact ⟨f, hf, rfl, rfl⟩

/-- The catalog of a document has the mutations of all relations. -/
theorem hasRelations_ofDocument {d : Document} {c : Catalog} (h : ofDocument d = .ok c) :
    c.HasRelations := by
  unfold ofDocument at h
  cases hi : TypeIndex.ofDocument d with
  | error e =>
    rw [hi] at h
    cases h
  | ok index =>
    rw [hi] at h
    cases h
    intro model info field related hmodel hrelated
    obtain ⟨m, hm, rfl, rfl⟩ := mem_of_model rfl hmodel
    obtain ⟨f, hf, rfl, _⟩ := mem_of_related hrelated
    have entry : (Names.relationMutation m.name f.name, ⟨m.name, Template.relateOf m f⟩) ∈
        modelMutations (generatedNames d) m :=
      List.mem_append_right _ (List.mem_map.2 ⟨f, hf, rfl⟩)
    have key : Names.relationMutation m.name f.name ∈
        (((index.modelTypes d).map Prod.snd).flatMap
          (modelMutations (generatedNames d))).map Prod.fst :=
      List.mem_map.2 ⟨_, List.mem_flatMap.2 ⟨m, hm, entry⟩, rfl⟩
    obtain ⟨found, hfound⟩ := Entries.exists_get?_of_mem_keys (Entries.mem_keys_ofList.2 key)
    exact ⟨found, (mutation_ok_iff _ _ _).2 hfound⟩

end Catalog

end GraphqlCypher
