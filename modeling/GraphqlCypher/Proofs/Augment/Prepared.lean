import GraphqlCypher.Proofs.Augment.Idempotent

/-! The document that an augmentation generates from.

An augmentation that has something to do first prepares the document: it is
scaffolded, and its models are put into normal form (`Document.Prepares`). What was
declared stays in its place (`objectAt?_of_lt`), what is put at the end is an entry for
the roots and root types without fields, and the models are those of the document, each
in its normal form (`Prepares.models_eq`). -/
namespace GraphqlCypher.Schema

theorem ObjectType.normalized_eq (o : AugmentOptions) (t : ObjectType) :
    ∃ fields, t.normalized o = { t with fields } := by
  unfold normalized
  split
  · next t' h => exact (normalize_ok h).1
  · exact ⟨t.fields, rfl⟩

theorem ObjectType.normalized_name (o : AugmentOptions) (t : ObjectType) :
    (t.normalized o).name = t.name := by
  obtain ⟨fields, h⟩ := t.normalized_eq o
  rw [h]

/-- The first `id` field stands between others, and taking it out leaves those. -/
theorem exists_around_id {fields : List Field} {f : Field}
    (h : fields.find? (·.name == Names.id) = some f) :
    ∃ before after, fields = before ++ f :: after ∧
      fields.eraseP (·.name == Names.id) = before ++ after ∧ ∀ g ∈ before, g.name ≠ Names.id := by
  obtain ⟨hid, before, after, rfl, hbefore⟩ := List.find?_eq_some_iff_append.1 h
  refine ⟨before, after, rfl, ?_, fun g hg => by simpa using hbefore g hg⟩
  rw [List.eraseP_append_right _ fun g hg => by simpa using hbefore g hg,
    List.eraseP_cons_of_pos (by exact hid)]

theorem ObjectType.names_reduceNestedLists (t : ObjectType) :
    t.reduceNestedLists.fields.map Field.name = t.fields.map Field.name := by
  rw [reduceNestedLists, List.map_map]
  rfl

/-- A model in normal form has its own fields, or a new `id` before them. -/
theorem ObjectType.fields_of_normalize {o : AugmentOptions} {t t' : ObjectType}
    (h : t.normalize o = .ok t') :
    t'.fields.Perm t.reduceNestedLists.fields ∨
      t'.fields = generatedIdField o.remote :: t.reduceNestedLists.fields ∧
        Names.id ∉ t.fields.map Field.name := by
  rw [normalize] at h
  split at h
  · unfold withIdInFront at h
    split at h
    · next hnone =>
      cases h
      refine .inr ⟨rfl, fun hmem => ?_⟩
      rw [← t.names_reduceNestedLists] at hmem
      obtain ⟨f, hf, hname⟩ := List.mem_map.1 hmem
      exact List.find?_eq_none.1 hnone f hf (beq_iff_eq.2 hname)
    · next f hf =>
      split at h
      · cases h
        obtain ⟨before, after, hfields, herase, -⟩ := exists_around_id hf
        left
        show (f :: t.reduceNestedLists.fields.eraseP (·.name == Names.id)).Perm _
        rw [herase, hfields]
        exact List.perm_middle.symm
      · cases h
  · cases h
    exact .inl (.refl _)

/-- Fields whose names differ are in normal form fields whose names differ. -/
theorem ObjectType.nodup_normalized (o : AugmentOptions) {t : ObjectType}
    (h : (t.fields.map Field.name).Nodup) : ((t.normalized o).fields.map Field.name).Nodup := by
  unfold normalized
  split
  · next t' ht' =>
    rcases fields_of_normalize ht' with hperm | ⟨hfields, hid⟩
    · rw [(hperm.map Field.name).nodup_iff, t.names_reduceNestedLists]
      exact h
    · rw [hfields, List.map_cons, t.names_reduceNestedLists]
      exact List.nodup_cons.2 ⟨hid, h⟩
  · exact h

namespace Document

variable {o : AugmentOptions} {d d' : Document} {S : Scope}

/-! ### What scaffolding does to each place -/

/-- The first schema definition is completed, if there is one. -/
def rooted (o : AugmentOptions) (d : Document) : Document :=
  if d.hasRoots then completeRoots o d else d

/-- What scaffolding may put at the end. -/
def IsScaffold (o : AugmentOptions) (x : Definition) : Prop :=
  x = .roots (Roots.complete o {}) ∨
    ∃ name, TypeIndex.isRoot name = true ∧ x = .type (.object { name })

theorem scaffold_eq (o : AugmentOptions) (d : Document) :
    ∃ e : Document, d.scaffold o = d.rooted o ++ e ∧ ∀ x ∈ e, IsScaffold o x := by
  have hroots : ∃ e : Document, d.withRoots o = d.rooted o ++ e ∧ ∀ x ∈ e, IsScaffold o x := by
    unfold withRoots rooted
    by_cases hd : d.hasRoots = true
    · exact ⟨[], by simp [hd]⟩
    · by_cases ho : (o.query || o.mutation) = true
      · exact ⟨[.roots (Roots.complete o {})], by simp [hd, ho, IsScaffold]⟩
      · exact ⟨[], by simp [hd, ho]⟩
  have hobject : ∀ (enabled : Bool) (name : String) (c : Document),
      TypeIndex.isRoot name = true → (∃ e, c = d.rooted o ++ e ∧ ∀ x ∈ e, IsScaffold o x) →
      ∃ e, c.withObject enabled name = d.rooted o ++ e ∧ ∀ x ∈ e, IsScaffold o x := by
    intro enabled name c hname hc
    obtain ⟨e, rfl, he⟩ := hc
    unfold withObject
    split
    · refine ⟨e ++ [.type (.object { name })], by rw [List.append_assoc], fun x hx => ?_⟩
      rcases List.mem_append.1 hx with hx | hx
      · exact he x hx
      · exact .inr ⟨name, hname, List.mem_singleton.1 hx⟩
    · exact ⟨e, rfl, he⟩
  unfold scaffold
  exact hobject _ _ _ (by decide) (hobject _ _ _ (by decide) hroots)

/-- Completing a schema definition does not touch the objects. -/
theorem object?_rooted (d : Document) :
    (d.rooted o).map Definition.object? = d.map Definition.object? := by
  unfold rooted
  split
  · exact object?_completeRoots d
  · rfl

theorem length_rooted (d : Document) : (d.rooted o).length = d.length := by
  simpa using congrArg List.length (object?_rooted (o := o) d)

theorem objectAt?_congr {d e : Document} (h : d.map Definition.object? = e.map Definition.object?)
    (i : Nat) : d.objectAt? i = e.objectAt? i := by
  have hi := congrArg (·[i]?) h
  simp only [List.getElem?_map] at hi
  unfold objectAt?
  cases hd : d[i]? <;> cases he : e[i]? <;> simp_all

theorem objectAt?_rooted (d : Document) (i : Nat) : (d.rooted o).objectAt? i = d.objectAt? i :=
  objectAt?_congr (object?_rooted d) i

/-- A schema definition is completed at most; everything else is as it was. -/
theorem getElem?_rooted {i : Nat} {x : Definition} (h : (d.rooted o)[i]? = some x) :
    d[i]? = some x ∨ ∃ r, d[i]? = some (.roots r) ∧ x = .roots (r.complete o) := by
  have complete : ∀ (d : Document) (i : Nat), (completeRoots o d)[i]? = some x →
      d[i]? = some x ∨ ∃ r, d[i]? = some (.roots r) ∧ x = .roots (r.complete o) := by
    intro d
    fun_induction completeRoots o d with
    | case1 => exact fun i h => .inl h
    | case2 r rest =>
      intro i h
      cases i with
      | zero => exact .inr ⟨r, rfl, (Option.some.inj h).symm⟩
      | succ i => exact .inl h
    | case3 other rest hother ih =>
      intro i h
      cases i with
      | zero => exact .inl h
      | succ i => exact ih i h
  unfold rooted at h
  split at h
  · exact complete d i h
  · exact .inl h

theorem objectAt?_of_lt {i : Nat} (hi : i < d.length) :
    (d.scaffold o).objectAt? i = d.objectAt? i := by
  obtain ⟨e, he, -⟩ := scaffold_eq o d
  rw [he, ← objectAt?_rooted (o := o) d i]
  unfold objectAt?
  rw [List.getElem?_append_left (by rw [length_rooted]; exact hi)]

theorem objectAt?_lt {i : Nat} {t : ObjectType} (h : d.objectAt? i = some t) : i < d.length := by
  obtain ⟨x, hx, -⟩ := Option.bind_eq_some_iff.1 h
  exact (List.getElem?_eq_some_iff.1 hx).1

theorem placedModels_scaffold : (d.scaffold o).placedModels = d.placedModels := by
  obtain ⟨e, he, hscaffold⟩ := scaffold_eq o d
  have hrooted : (d.rooted o).placedObjects = d.placedObjects := by
    have hplaced : ∀ d : Document, d.placedObjects =
        (d.map Definition.object?).zipIdx.filterMap fun p => p.1.map (p.2, ·) := by
      intro d
      rw [List.zipIdx_map, List.filterMap_map]
      rfl
    rw [hplaced, object?_rooted, ← hplaced]
  have hadded : ∀ p ∈ e.placedObjects, p.2.isModel = false := by
    intro p hp
    obtain ⟨i, t⟩ := p
    obtain ⟨x, hx, hobject⟩ := Option.bind_eq_some_iff.1 (mem_placedObjects.1 hp)
    rcases hscaffold x (List.mem_of_getElem? hx) with rfl | ⟨name, -, rfl⟩
    · cases hobject
    · cases hobject
      rfl
  have hnone : (e.placedObjects.map fun p => ((d.rooted o).length + p.1, p.2)).filter
      (·.2.isModel) = [] := by
    refine List.filter_eq_nil_iff.2 fun p hp => ?_
    obtain ⟨q, hq, rfl⟩ := List.mem_map.1 hp
    simpa using hadded q hq
  rw [placedModels, he, placedObjects_append, List.filter_append, hrooted, hnone, List.append_nil]
  rfl

/-! ### Preparing -/

/-- A scope that holds a prepared document. -/
structure Prepares (o : AugmentOptions) (d : Document) (S : Scope) : Prop where
  index : TypeIndex.ofDocument d = .ok S.index
  normalized : (d.scaffold o).normalize o = .ok S.document
  roots : S.roots = RootIndex.ofDocument S.document
  options : S.options = o

/-- An augmentation leaves a document without models alone, and extends any other once it
is prepared. -/
theorem prepares_of_augment (h : d.augment o = .ok d') :
    (d.models = [] ∧ d' = d) ∨ ∃ S, d.Prepares o S ∧ d' = S.document.extend S := by
  obtain ⟨x, hx, ⟨hempty, rfl⟩ | ⟨-, prepared, hp, rfl⟩⟩ := augment_ok h
  · left
    have hplaced := TypeIndex.models_eq hx
    rw [hempty] at hplaced
    exact ⟨by rw [models, List.map_eq_nil_iff.1 hplaced.symm, List.map_nil], rfl⟩
  · exact .inr ⟨_, ⟨hx, hp, rfl, rfl⟩, rfl⟩

namespace Prepares

variable (h : d.Prepares o S)
include h

theorem document_eq :
    S.document = (d.scaffold o).editObjects fun _ => ObjectType.settled o :=
  eq_editObjects_of_normalize h.normalized

theorem indexed : S.Indexed where
  index := (ofDocument_prepared h.normalized).trans h.index
  roots := h.roots

/-- What preparing makes of an object type. -/
theorem objectAt?_eq (i : Nat) :
    S.document.objectAt? i = ((d.scaffold o).objectAt? i).map (ObjectType.settled o) := by
  rw [h.document_eq, objectAt?_editObjects]

theorem placedModels_eq :
    S.document.placedModels = d.placedModels.map fun p => (p.1, p.2.normalized o) := by
  have hmodel : ∀ t : ObjectType, (t.settled o).isModel = t.isModel := by
    intro t
    obtain ⟨fields, ht⟩ := t.settled_eq o
    rw [ht]
    rfl
  rw [h.document_eq, placedModels, placedObjects_editObjects, List.filter_map]
  have hfilter : (d.scaffold o).placedObjects.filter
      ((fun p : Nat × ObjectType => p.2.isModel) ∘ fun p => (p.1, p.2.settled o)) =
        d.placedModels := by
    rw [← placedModels_scaffold (o := o)]
    exact List.filter_congr fun p _ => hmodel p.2
  rw [hfilter]
  refine List.map_congr_left fun p hp => ?_
  simp [ObjectType.settled, (mem_placedModels.1 hp).2]

/-- The models of the prepared document are those of the document, in normal form. -/
theorem models_eq : S.document.models = d.models.map (ObjectType.normalized o) := by
  rw [models, h.placedModels_eq, models, List.map_map, List.map_map]
  rfl

/-- Every model has a normal form. -/
theorem normalize_ok {m : ObjectType} (hm : m ∈ d.models) :
    m.normalize o = .ok (m.normalized o) := by
  obtain ⟨i, hi, hmodel⟩ := mem_models.1 hm
  have hlt := objectAt?_lt hi
  rw [← objectAt?_of_lt (o := o) hlt] at hi
  obtain ⟨x, hx, hobject⟩ := Option.bind_eq_some_iff.1 hi
  obtain ⟨hi', hget⟩ := List.getElem?_eq_some_iff.1 hx
  obtain ⟨hlength, heach⟩ := List.forall₂_iff_get.1 (mapM_ok_iff.1 h.normalized)
  have hy := heach i hi' (hlength ▸ hi')
  rcases x.object_cases with hnone | ⟨t, rfl⟩
  · rw [hnone] at hobject
    cases hobject
  · cases hobject
    rw [List.get_eq_getElem, hget, Definition.normalize, if_pos hmodel] at hy
    unfold ObjectType.normalized
    cases hm : m.normalize o with
    | ok m' => rfl
    | error e =>
      rw [hm] at hy
      cases hy

end Prepares

end Document

end GraphqlCypher.Schema
