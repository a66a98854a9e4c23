import GraphqlCypher.Proofs.Augment.Edits
import Mathlib.Data.List.Nodup

/-! The models that an augmentation generates for.

The index of types holds the models in the order of the document, each name once
(`models_eq`, `nodup_models`). So the models of a scope are the marked object types
of its document, and looking a model up finds the one of that name. -/
namespace GraphqlCypher.Schema

/-- The models of a document, in order and with their places. -/
def Document.placedModels (d : Document) : List (Nat × ObjectType) :=
  d.placedObjects.filter (·.2.isModel)

/-- The models of a document, in order. -/
def Document.models (d : Document) : List ObjectType := d.placedModels.map Prod.snd

theorem Document.mem_placedModels {d : Document} {i : Nat} {t : ObjectType} :
    (i, t) ∈ d.placedModels ↔ d.objectAt? i = some t ∧ t.isModel = true := by
  rw [placedModels, List.mem_filter, mem_placedObjects]

theorem Document.mem_models {d : Document} {t : ObjectType} :
    t ∈ d.models ↔ ∃ i, d.objectAt? i = some t ∧ t.isModel = true := by
  simp only [models, List.mem_map, Prod.exists, mem_placedModels, exists_eq_right]

theorem Document.mem_objects_of_mem_models {d : Document} {t : ObjectType} (h : t ∈ d.models) :
    t ∈ d.objects := by
  obtain ⟨i, hi, -⟩ := mem_models.1 h
  obtain ⟨x, hx, hobject⟩ := Option.bind_eq_some_iff.1 hi
  exact List.mem_filterMap.2 ⟨x, List.mem_of_getElem? hx, hobject⟩

namespace TypeIndex

theorem add_ok {x y : TypeIndex} {p : Nat × ObjectType} (h : add x p = .ok y) :
    (p.2.isModel = true ∧ p.2.name ∉ x.models.keys ∧ y.models = x.models ++ [(p.2.name, p.1)]) ∨
      (p.2.isModel = false ∧ y.models = x.models) := by
  unfold add at h
  simp only at h
  split at h
  · next hm =>
    split at h
    · cases h
    · next hnew =>
      cases h
      refine .inl ⟨hm, fun hmem => hnew ?_, rfl⟩
      exact (Entries.contains_iff_mem_keys ..).2 hmem
  · next hm =>
    refine .inr ⟨by simpa using hm, ?_⟩
    split at h <;> cases h <;> rfl

/-- Indexing goes through the models in order and takes no name twice. -/
theorem foldlM_add_ok {placed : List (Nat × ObjectType)} {x y : TypeIndex}
    (h : placed.foldlM add x = .ok y) (hx : x.models.keys.Nodup) :
    y.models = x.models ++ (placed.filter (·.2.isModel)).map (fun p => (p.2.name, p.1)) ∧
      y.models.keys.Nodup := by
  induction placed generalizing x with
  | nil => cases h; exact ⟨by simp, hx⟩
  | cons p rest ih =>
    rw [List.foldlM_cons] at h
    cases hp : add x p with
    | error e => rw [hp] at h; cases h
    | ok x' =>
      rw [hp] at h
      rcases add_ok hp with ⟨hm, hnew, hx'⟩ | ⟨hm, hx'⟩
      · have hnodup : x'.models.keys.Nodup := by
          rw [hx', Entries.keys, List.map_append, List.nodup_append]
          refine ⟨hx, by simp, fun a ha b hb => ?_⟩
          simp only [List.map_cons, List.map_nil, List.mem_singleton] at hb
          exact fun hab => hnew (hb ▸ hab ▸ ha)
        obtain ⟨hy, hkeys⟩ := ih h hnodup
        refine ⟨?_, hkeys⟩
        rw [hy, hx', List.filter_cons_of_pos (by simpa using hm), List.map_cons,
          List.append_assoc, List.singleton_append]
      · obtain ⟨hy, hkeys⟩ := ih h (by rw [hx']; exact hx)
        refine ⟨?_, hkeys⟩
        rw [hy, hx', List.filter_cons_of_neg (by simp [hm])]

variable {d : Document} {x : TypeIndex} (h : ofDocument d = .ok x)
include h

/-- The index holds the models in order. -/
theorem models_eq : x.models = d.placedModels.map fun p => (p.2.name, p.1) := by
  rw [(foldlM_add_ok h List.nodup_nil).1]
  rfl

theorem nodup_models : (d.models.map ObjectType.name).Nodup := by
  have hkeys := (foldlM_add_ok h List.nodup_nil).2
  rw [models_eq h, Entries.keys, List.map_map] at hkeys
  rw [Document.models, List.map_map]
  exact hkeys

/-- A model is known by its name. -/
theorem eq_of_name_eq {t u : ObjectType} (ht : t ∈ d.models) (hu : u ∈ d.models)
    (hname : t.name = u.name) : t = u :=
  List.inj_on_of_nodup_map (nodup_models h) ht hu hname

theorem modelTypes_eq : x.modelTypes d = d.placedModels := by
  rw [modelTypes, models_eq h, List.filterMap_map]
  have hall : ∀ p ∈ d.placedModels, (d.objectAt? p.1).map (p.1, ·) = some p := by
    intro p hp
    rw [(Document.mem_placedModels.1 hp).1]
    rfl
  calc d.placedModels.filterMap _ = d.placedModels.filterMap some :=
        List.filterMap_congr hall
    _ = d.placedModels := List.filterMap_some

theorem isModel_iff {name : String} :
    x.isModel name = true ↔ ∃ t ∈ d.models, t.name = name := by
  rw [isModel, Entries.contains_iff_mem_keys, models_eq h, Entries.keys, List.map_map,
    Document.models]
  simp only [List.mem_map, Function.comp_apply]
  constructor
  · intro h
    obtain ⟨p, hp, hname⟩ := h
    exact ⟨p.2, ⟨p, hp, rfl⟩, hname⟩
  · intro h
    obtain ⟨t, ⟨p, hp, rfl⟩, hname⟩ := h
    exact ⟨p, hp, hname⟩

theorem model?_eq (name : String) : x.model? d name = d.models.find? (·.name == name) := by
  have hget : ∀ placed : List (Nat × ObjectType), (∀ p ∈ placed, d.objectAt? p.1 = some p.2) →
      (Entries.get? (placed.map fun p => (p.2.name, p.1)) name).bind d.objectAt? =
        (placed.map Prod.snd).find? (·.name == name) := by
    intro placed hplaced
    induction placed with
    | nil => rfl
    | cons p rest ih =>
      simp only [List.map_cons, Entries.get?_cons]
      by_cases hp : p.2.name = name
      · rw [if_pos hp, List.find?_cons_of_pos (by simpa using hp)]
        exact hplaced p (List.mem_cons_self ..)
      · rw [if_neg hp, List.find?_cons_of_neg (by simpa using hp)]
        exact ih fun q hq => hplaced q (List.mem_cons_of_mem _ hq)
  rw [model?, models_eq h, Document.models]
  exact hget _ fun p hp => (Document.mem_placedModels.1 hp).1

end TypeIndex

/-! ### Scopes -/

/-- A scope whose indexes are those of its document. -/
structure Scope.Indexed (S : Scope) : Prop where
  index : TypeIndex.ofDocument S.document = .ok S.index
  roots : S.roots = RootIndex.ofDocument S.document

namespace Scope.Indexed

variable {S : Scope} (h : S.Indexed)
include h

theorem models_eq : S.models = S.document.models := by
  rw [Scope.models, TypeIndex.modelTypes_eq h.index]
  rfl

theorem model?_eq (name : String) : S.model? name = S.document.models.find? (·.name == name) :=
  TypeIndex.model?_eq h.index name

end Scope.Indexed

end GraphqlCypher.Schema
