import GraphqlCypher.Proofs.Augment.Models
import GraphqlCypher.Proofs.Augment.Passes
import GraphqlCypher.Proofs.Entries

/-! Extending a prepared document, as an edit.

`extend_eq` says what becomes of each object type: a model is rebuilt on a local
schema, and the two roots take the new fields at their ends. The rest of the file
finds the models and the roots of the extended document again. -/
namespace GraphqlCypher.Schema

namespace Scope
variable (S : Scope)

/-- What extending makes of a model. -/
def remade (t : ObjectType) : ObjectType := if S.options.remote then t else S.rebuild t

/-- The new fields of the root at a place. -/
def addedFields (i : Nat) : List Field :=
  (if S.roots.queries.map RootFields.place = some i then S.additions.queries else []) ++
    if S.roots.mutations.map RootFields.place = some i then S.additions.mutations else []

/-- What extending makes of the object type at a place. -/
def extended (i : Nat) (t : ObjectType) : ObjectType :=
  let kept := if t.isModel then S.remade t else t
  { kept with fields := kept.fields ++ S.addedFields i }

theorem remade_eq (t : ObjectType) : ∃ fields, S.remade t = { t with fields } := by
  unfold remade
  split
  · exact ⟨_, rfl⟩
  · exact ⟨_, rfl⟩

theorem remade_name (t : ObjectType) : (S.remade t).name = t.name := by
  obtain ⟨fields, h⟩ := S.remade_eq t
  rw [h]

theorem extended_eq (i : Nat) (t : ObjectType) : ∃ fields, S.extended i t = { t with fields } := by
  unfold extended
  split
  · obtain ⟨fields, h⟩ := S.remade_eq t
    exact ⟨_, by rw [h]⟩
  · exact ⟨_, rfl⟩

theorem extended_name (i : Nat) (t : ObjectType) : (S.extended i t).name = t.name := by
  obtain ⟨fields, h⟩ := S.extended_eq i t
  rw [h]

theorem extended_directives (i : Nat) (t : ObjectType) :
    (S.extended i t).directives = t.directives := by
  obtain ⟨fields, h⟩ := S.extended_eq i t
  rw [h]

end Scope

namespace Document

theorem extendRoot_eq (root : Option RootFields) (fields : List Field) (d : Document) :
    d.extendRoot root fields = d.editObjects fun i t =>
      { t with fields := t.fields ++
          if root.map RootFields.place = some i then fields else [] } := by
  cases root with
  | none =>
    refine (editObjects_eq_self fun i t _ => ?_).symm
    simp
  | some r =>
    apply List.ext_getElem?
    intro i
    rw [getElem?_editObjects, extendRoot, List.getElem?_modify]
    congr 1
    funext x
    by_cases hi : r.place = i
    · subst hi
      simp [Definition.appendFields]
    · simp only [Option.map_some, Option.some.injEq, hi, if_false, List.append_nil]
      rcases x.object_cases with h | ⟨t, rfl⟩
      · rw [Definition.mapObject_of_none _ h]
      · rfl

theorem rebuildModels_eq (S : Scope) (d : Document) :
    d.rebuildModels S = d.editObjects fun _ t => if t.isModel then S.remade t else t := by
  unfold rebuildModels Scope.remade
  split
  · exact (editObjects_eq_self fun i t _ => by simp).symm
  · apply List.ext_getElem?
    intro i
    rw [getElem?_editObjects, List.getElem?_map]

/-- Extending is an edit in place and the new types at the end. -/
theorem extend_eq (S : Scope) (d : Document) :
    d.extend S = d.editObjects S.extended ++ S.additions.types.map Definition.type := by
  simp only [extend, rebuildModels_eq, extendRoot_eq, editObjects_editObjects]
  congr 2
  funext i t
  simp only [Scope.extended, Scope.addedFields, List.append_assoc]

/-! ### The new types -/

/-- No object type is generated. -/
theorem object?_of_mem_types {S : Scope} {m : ObjectType} {t : TypeDefinition}
    (h : t ∈ S.types m) : (Definition.type t).object? = none := by
  unfold Scope.types at h
  simp only [List.mem_append] at h
  rcases h with h | h
  · split at h
    · cases h
    · simp only [List.mem_cons, List.not_mem_nil, or_false] at h
      rcases h with rfl | rfl <;> rfl
  · split at h
    · simp only [List.mem_append, List.mem_map, List.mem_cons, List.not_mem_nil, or_false] at h
      rcases h with ⟨i, -, rfl⟩ | rfl | rfl <;> rfl
    · cases h

theorem mem_of_mem_freshBy {α : Type} {key : α → String} {taken : List String} {items : List α}
    {a : α} (h : a ∈ freshBy key taken items) : a ∈ items := by
  induction items generalizing taken with
  | nil => cases h
  | cons b rest ih =>
    rw [freshBy] at h
    split at h
    · exact List.mem_cons_of_mem _ (ih h)
    · rcases List.mem_cons.1 h with rfl | h
      · exact List.mem_cons_self ..
      · exact List.mem_cons_of_mem _ (ih h)

theorem object?_of_mem_additions {S : Scope} {x : Definition}
    (h : x ∈ S.additions.types.map Definition.type) : x.object? = none := by
  obtain ⟨t, ht, rfl⟩ := List.mem_map.1 h
  obtain ⟨m, -, hm⟩ := List.mem_flatMap.1 (mem_of_mem_freshBy ht)
  exact object?_of_mem_types hm

theorem placedObjects_eq_nil {e : Document} (h : ∀ x ∈ e, x.object? = none) :
    e.placedObjects = [] := by
  refine List.eq_nil_iff_forall_not_mem.2 fun p hp => ?_
  obtain ⟨x, hx, ht⟩ := Option.bind_eq_some_iff.1 (mem_placedObjects.1 hp)
  rw [h x (List.mem_of_getElem? hx)] at ht
  cases ht

/-- The object types of an extended document. -/
theorem placedObjects_extend (S : Scope) (d : Document) :
    (d.extend S).placedObjects = d.placedObjects.map fun p => (p.1, S.extended p.1 p.2) := by
  rw [extend_eq, placedObjects_append, placedObjects_eq_nil fun _ => object?_of_mem_additions,
    List.map_nil, List.append_nil, placedObjects_editObjects]

/-- The models are extended each in its place. -/
theorem models_extend_eq (S : Scope) (d : Document) :
    (d.extend S).models = d.placedModels.map fun p => S.extended p.1 p.2 := by
  rw [models, placedModels, placedObjects_extend, List.filter_map, List.map_map]
  congr 1
  refine List.filter_congr fun p _ => ?_
  rw [Function.comp_apply, ObjectType.isModel, S.extended_directives]
  rfl

theorem typeNames_extend (S : Scope) (d : Document) :
    (d.extend S).typeNames = d.typeNames ++ S.additions.types.map TypeDefinition.name := by
  have happend : ∀ d e : Document, (d ++ e).typeNames = d.typeNames ++ e.typeNames :=
    fun d e => List.filterMap_append
  rw [extend_eq, happend, typeNames_editObjects S.extended_name]
  congr 1
  unfold typeNames
  rw [List.filterMap_map]
  exact congrFun List.filterMap_eq_map _

end Document

/-- Extending changes nothing about which types there are. -/
theorem TypeIndex.ofDocument_extend (S : Scope) (d : Document) :
    ofDocument (d.extend S) = ofDocument d := by
  rw [Document.extend_eq, ofDocument_append, ofDocument_editObjects S.extended_name
    S.extended_directives]
  intro t ht
  obtain ⟨x, hx, hxt⟩ := List.mem_filterMap.1 ht
  rw [Document.object?_of_mem_additions hx] at hxt
  cases hxt

/-! ### Models and roots of the extended document -/

namespace RootFields
variable {d : Document} {root : String} {r : RootFields}

/-- The last object type of the name. -/
theorem find?_eq (d : Document) (root : String) :
    find? d root = ((d.placedObjects.filter (·.2.name == root)).getLast?).map fun p =>
      ⟨p.1, Entries.ofList (p.2.fields.zipIdx.map fun f => (f.1.name, f.2))⟩ := rfl

theorem mem_keys_fields {fields : List Field} {n : String} :
    n ∈ (Entries.ofList (fields.zipIdx.map fun f => (f.1.name, f.2))).keys ↔
      n ∈ fields.map Field.name := by
  rw [Entries.mem_keys_ofList, List.map_map]
  have hzip : fields.zipIdx.map (Prod.fst ∘ fun f => (f.1.name, f.2)) =
      (fields.zipIdx.map Prod.fst).map Field.name := by
    rw [List.map_map]
    rfl
  rw [hzip, List.zipIdx_map_fst]

theorem find?_some (h : find? d root = some r) :
    ∃ t, d.objectAt? r.place = some t ∧ t.name = root ∧
      r.fields = Entries.ofList (t.fields.zipIdx.map fun f => (f.1.name, f.2)) ∧
      (d.placedObjects.filter (·.2.name == root)).getLast? = some (r.place, t) := by
  rw [find?_eq] at h
  obtain ⟨⟨i, t⟩, hlast, rfl⟩ := Option.map_eq_some_iff.1 h
  obtain ⟨hmem, hname⟩ := List.mem_filter.1 (List.mem_of_getLast? hlast)
  exact ⟨t, Document.mem_placedObjects.1 hmem, by simpa using hname, rfl, hlast⟩

theorem find?_extend (S : Scope) (d : Document) (root : String) :
    find? (d.extend S) root = ((d.placedObjects.filter (·.2.name == root)).getLast?).map fun p =>
      ⟨p.1, Entries.ofList ((S.extended p.1 p.2).fields.zipIdx.map fun f => (f.1.name, f.2))⟩ := by
  have hfilter : (d.extend S).placedObjects.filter (·.2.name == root) =
      (d.placedObjects.filter (·.2.name == root)).map fun p => (p.1, S.extended p.1 p.2) := by
    rw [Document.placedObjects_extend, List.filter_map]
    congr 1
    exact List.filter_congr fun p _ => by simp only [Function.comp_apply, S.extended_name]
  rw [find?_eq, hfilter, List.getLast?_map, Option.map_map]
  rfl

/-- A root that is no model keeps its fields and takes the new ones. -/
theorem find?_extend_some {S : Scope} (hroot : ∀ t ∈ d.models, t.name ≠ root)
    (h : find? d root = some r) :
    ∃ r', find? (d.extend S) root = some r' ∧ r'.place = r.place ∧
      ∀ n, n ∈ r'.fields.keys ↔ n ∈ r.fields.keys ∨ n ∈ (S.addedFields r.place).map Field.name := by
  obtain ⟨t, hplace, hname, hfields, hlast⟩ := find?_some h
  have hmodel : t.isModel = false := by
    cases hm : t.isModel with
    | false => rfl
    | true => exact absurd hname (hroot t (Document.mem_models.2 ⟨r.place, hplace, hm⟩))
  have hfind := find?_extend S d root
  rw [hlast, Option.map_some] at hfind
  refine ⟨_, hfind, rfl, fun n => ?_⟩
  rw [mem_keys_fields, hfields, mem_keys_fields]
  simp only [Scope.extended, hmodel, Bool.false_eq_true, if_false, List.map_append,
    List.mem_append]

theorem find?_extend_none {S : Scope} (h : find? d root = none) :
    find? (d.extend S) root = none := by
  rw [find?_eq, Option.map_eq_none_iff] at h
  rw [find?_extend, h, Option.map_none]

end RootFields

/-- No model takes the name of a root. -/
def Document.RootsApart (d : Document) : Prop :=
  ∀ t ∈ d.models, TypeIndex.isRoot t.name = false

theorem Document.RootsApart.name_ne {d : Document} (h : d.RootsApart) {root : String}
    (hroot : TypeIndex.isRoot root = true) : ∀ t ∈ d.models, t.name ≠ root := by
  intro t ht he
  have hapart := h t ht
  rw [he, hroot] at hapart
  cases hapart

namespace Scope.Indexed

variable {S : Scope} (h : S.Indexed)
include h

theorem addedFields_of_model (hroots : S.document.RootsApart) {i : Nat} {t : ObjectType}
    (ht : S.document.objectAt? i = some t) (hm : t.isModel = true) : S.addedFields i = [] := by
  have hmem : t ∈ S.document.models := Document.mem_models.2 ⟨i, ht, hm⟩
  have hplace : ∀ root, TypeIndex.isRoot root = true →
      (RootFields.find? S.document root).map RootFields.place ≠ some i := by
    intro root hroot hi
    obtain ⟨r, hr, rfl⟩ := Option.map_eq_some_iff.1 hi
    obtain ⟨u, hu, hname, -⟩ := RootFields.find?_some hr
    rw [hu] at ht
    cases ht
    exact hroots.name_ne hroot _ hmem hname
  have hqueries : S.roots.queries.map RootFields.place ≠ some i := by
    rw [h.roots]
    exact hplace Names.query (by decide)
  have hmutations : S.roots.mutations.map RootFields.place ≠ some i := by
    rw [h.roots]
    exact hplace Names.mutation (by decide)
  rw [addedFields, if_neg hqueries, if_neg hmutations, List.append_nil]

/-- The models of the extended document are the models, remade. -/
theorem placedModels_extend (hroots : S.document.RootsApart) :
    (S.document.extend S).placedModels =
      S.document.placedModels.map fun p => (p.1, S.remade p.2) := by
  have hmodel : ∀ p : Nat × ObjectType, (S.extended p.1 p.2).isModel = p.2.isModel := by
    intro p
    rw [ObjectType.isModel, S.extended_directives]
    rfl
  rw [Document.placedModels, Document.placedObjects_extend, List.filter_map]
  have hfilter : S.document.placedObjects.filter
      ((fun p : Nat × ObjectType => p.2.isModel) ∘ fun p => (p.1, S.extended p.1 p.2)) =
        S.document.placedModels :=
    List.filter_congr fun p _ => hmodel p
  rw [hfilter]
  refine List.map_congr_left fun p hp => ?_
  obtain ⟨ht, hm⟩ := Document.mem_placedModels.1 hp
  have hadded := h.addedFields_of_model hroots ht hm
  simp only [extended, hm, if_true, hadded, List.append_nil]

theorem models_extend (hroots : S.document.RootsApart) :
    (S.document.extend S).models = S.document.models.map S.remade := by
  rw [Document.models, h.placedModels_extend hroots, Document.models, List.map_map, List.map_map]
  rfl

end Scope.Indexed

end GraphqlCypher.Schema
