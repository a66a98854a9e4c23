import GraphqlCypher.Proofs.Augment.Members
import GraphqlCypher.Proofs.Schema.IdField

/-! The keys of a model: its `id`, and what else is marked unique.

Normal form puts the `id` of a model in front (`ObjectType.IdFirst`) and keeps the keys. So the
statements that put edges, which are made from models in normal form, match by the keys that the
models declare (`Document.Prepares.uniqueMarked_normalized`). -/
namespace GraphqlCypher.Schema

namespace ObjectType

/-- The `id`, and then the other fields that are marked unique, in order. -/
def keys (t : ObjectType) : List String :=
  Names.id :: (t.fields.filter fun f => f.hasUniqueMark && f.name != Names.id).map Field.name

/-- The `id` stands in front, and no other field has its name. -/
structure IdFirst (t : ObjectType) (id : Field) (rest : List Field) : Prop where
  fields : t.fields = id :: rest
  named : id.name = Names.id
  others : ∀ g ∈ rest, g.name ≠ Names.id

namespace IdFirst

variable {t : ObjectType} {id : Field} {rest : List Field} (h : t.IdFirst id rest)
include h

theorem keys_eq : t.keys = Names.id :: (rest.filter Field.hasUniqueMark).map Field.name := by
  have hmarked : rest.filter (fun g => g.hasUniqueMark && g.name != Names.id) =
      rest.filter Field.hasUniqueMark :=
    List.filter_congr fun g hg => by simp [h.others g hg]
  rw [keys, h.fields, List.filter_cons_of_neg (by simp [h.named]), hmarked]

/-- The fields by which a statement matches. -/
theorem uniqueMarked_eq : uniqueMarked t = t.keys := by
  have hnone : Names.id ∉ (rest.filter Field.hasUniqueMark).map Field.name := by
    intro hmem
    obtain ⟨g, hg, hname⟩ := List.mem_map.1 hmem
    exact h.others g (List.mem_of_mem_filter hg) hname
  rw [h.keys_eq, uniqueMarked, h.fields]
  by_cases hid : id.hasUniqueMark = true
  · rw [List.filter_cons_of_pos hid, List.map_cons, h.named]
    exact if_pos (by simp)
  · rw [List.filter_cons_of_neg hid]
    exact if_neg (by simpa using hnone)

end IdFirst

/-! ### Normal form -/

theorem keys_reduceNestedLists (t : ObjectType) : t.reduceNestedLists.keys = t.keys := by
  rw [keys, keys, reduceNestedLists, List.filter_map, List.map_map]
  rfl

/-- What putting the `id` in front makes of fields with names of their own. -/
theorem exists_fields_of_withIdInFront {remote : Bool} {t t' : ObjectType}
    (hdistinct : (t.fields.map Field.name).Nodup) (h : t.withIdInFront remote = .ok t') :
    ∃ f, t'.fields = f :: t.fields.filter (·.name != Names.id) ∧ f.name = Names.id ∧
      f.isStored = true := by
  unfold withIdInFront at h
  split at h
  · next hnone =>
    cases h
    have hother : t.fields.filter (·.name != Names.id) = t.fields :=
      List.filter_eq_self.2 fun g hg => by simpa using List.find?_eq_none.1 hnone g hg
    exact ⟨_, by rw [hother], rfl, by cases remote <;> rfl⟩
  · next f hf =>
    split at h
    · next haccept =>
      cases h
      have hid : f.name = Names.id := by simpa using List.find?_some hf
      refine ⟨f, ?_, hid, Field.isStored_of_accepted hid haccept⟩
      obtain ⟨before, after, hfields, herase, hbefore⟩ := exists_around_id hf
      have hafter : ∀ g ∈ after, g.name ≠ Names.id := by
        intro g hg hname
        rw [hfields, List.map_append, List.map_cons, List.nodup_append] at hdistinct
        exact (List.nodup_cons.1 hdistinct.2.1).1
          (hid ▸ hname ▸ List.mem_map_of_mem hg)
      simp only [herase]
      rw [hfields, List.filter_append, List.filter_cons_of_neg (by simp [hid]),
        List.filter_eq_self.2 (by simpa using hbefore),
        List.filter_eq_self.2 (by simpa using hafter)]
    · cases h

/-- Normalizing puts a stored `id` in front of the other fields, and keeps the keys. -/
theorem exists_idFirst_of_normalize {o : AugmentOptions} (ho : (o.remote || o.idFields) = true)
    {t t' : ObjectType} (hdistinct : (t.fields.map Field.name).Nodup)
    (h : t.normalize o = .ok t') :
    ∃ id, t'.IdFirst id (t.reduceNestedLists.fields.filter (·.name != Names.id)) ∧
      id.isStored = true ∧ t'.keys = t.keys := by
  rw [normalize, if_pos ho] at h
  obtain ⟨id, hfields, hid, hstored⟩ :=
    exists_fields_of_withIdInFront (by rwa [names_reduceNestedLists]) h
  have hfirst : t'.IdFirst id (t.reduceNestedLists.fields.filter (·.name != Names.id)) :=
    ⟨hfields, hid, fun g hg => by simpa using (List.mem_filter.1 hg).2⟩
  refine ⟨id, hfirst, hstored, ?_⟩
  rw [hfirst.keys_eq, ← t.keys_reduceNestedLists, keys, List.filter_filter]

end ObjectType

/-- **A prepared model is matched by its keys.** -/
theorem Document.Prepares.uniqueMarked_normalized {o : AugmentOptions} {d : Document} {S : Scope}
    (h : d.Prepares o S) (ho : (o.remote || o.idFields) = true) {m : ObjectType}
    (hm : m ∈ d.models) (hdistinct : (m.fields.map Field.name).Nodup) :
    uniqueMarked (m.normalized o) = m.keys := by
  obtain ⟨id, hfirst, -, hkeys⟩ :=
    ObjectType.exists_idFirst_of_normalize ho hdistinct (h.normalize_ok hm)
  rw [hfirst.uniqueMarked_eq, hkeys]

end GraphqlCypher.Schema
