import GraphqlCypher.Augment.Document

/-! Edits of the object types of a document.

Every pass of an augmentation is of one of two kinds: it changes the fields of
object types in their places, or it adds definitions at the end. `editObjects` is
the first kind. An edit that leaves names and directives alone leaves the index of
types alone (`ofDocument_editObjects`), and so does what is added, as long as it
declares nothing but unmarked roots (`ofDocument_append`). -/
namespace GraphqlCypher.Schema

namespace Definition

/-- A definition declares no object type, or it is one. -/
theorem object_cases (x : Definition) : x.object? = none ∨ ∃ t, x = .type (.object t) := by
  unfold object?
  split
  · exact .inr ⟨_, rfl⟩
  · exact .inl rfl

theorem mapObject_of_none (f : ObjectType → ObjectType) {x : Definition} (h : x.object? = none) :
    x.mapObject f = x := by
  unfold mapObject
  split
  · cases h
  · rfl

theorem object?_mapObject (f : ObjectType → ObjectType) (x : Definition) :
    (x.mapObject f).object? = x.object?.map f := by
  rcases x.object_cases with h | ⟨t, rfl⟩
  · rw [mapObject_of_none f h, h, Option.map_none]
  · rfl

theorem mapObject_mapObject (f g : ObjectType → ObjectType) (x : Definition) :
    (x.mapObject f).mapObject g = x.mapObject fun t => g (f t) := by
  rcases x.object_cases with h | ⟨t, rfl⟩
  · rw [mapObject_of_none f h, mapObject_of_none g h, mapObject_of_none _ h]
  · rfl

theorem typeName?_mapObject {f : ObjectType → ObjectType} (hname : ∀ t, (f t).name = t.name)
    (x : Definition) : (x.mapObject f).typeName? = x.typeName? := by
  rcases x.object_cases with h | ⟨t, rfl⟩
  · rw [mapObject_of_none f h]
  · exact congrArg some (hname t)

end Definition

namespace Document

/-- Changes the object types, each in its place and knowing it. -/
def editObjects (f : Nat → ObjectType → ObjectType) (d : Document) : Document :=
  d.mapIdx fun i => Definition.mapObject (f i)

/-! ### Edits in place -/

theorem getElem?_editObjects (f : Nat → ObjectType → ObjectType) (d : Document) (i : Nat) :
    (d.editObjects f)[i]? = d[i]?.map (Definition.mapObject (f i)) :=
  List.getElem?_mapIdx

theorem editObjects_editObjects (f g : Nat → ObjectType → ObjectType) (d : Document) :
    (d.editObjects f).editObjects g = d.editObjects fun i t => g i (f i t) := by
  apply List.ext_getElem?
  intro i
  simp only [getElem?_editObjects, Option.map_map]
  congr 1
  funext x
  exact x.mapObject_mapObject (f i) (g i)

theorem objectAt?_editObjects (f : Nat → ObjectType → ObjectType) (d : Document) (i : Nat) :
    (d.editObjects f).objectAt? i = (d.objectAt? i).map (f i) := by
  unfold objectAt?
  rw [getElem?_editObjects]
  cases d[i]? with
  | none => rfl
  | some x => exact x.object?_mapObject (f i)

/-- An edit that changes no object type of the document changes nothing. -/
theorem editObjects_eq_self {f : Nat → ObjectType → ObjectType} {d : Document}
    (h : ∀ i t, d.objectAt? i = some t → f i t = t) : d.editObjects f = d := by
  apply List.ext_getElem?
  intro i
  rw [getElem?_editObjects]
  cases hx : d[i]? with
  | none => rfl
  | some x =>
    rcases x.object_cases with hnone | ⟨t, rfl⟩
    · rw [Option.map_some, Definition.mapObject_of_none _ hnone]
    · have ht : f i t = t := h i t (by rw [objectAt?, hx]; rfl)
      rw [Option.map_some, Definition.mapObject, ht]

theorem placedObjects_editObjects (f : Nat → ObjectType → ObjectType) (d : Document) :
    (d.editObjects f).placedObjects = d.placedObjects.map fun p => (p.1, f p.1 p.2) := by
  have hzip : (d.editObjects f).zipIdx = d.zipIdx.map fun p => (p.1.mapObject (f p.2), p.2) := by
    apply List.ext_getElem?
    intro i
    simp only [List.getElem?_zipIdx, getElem?_editObjects, List.getElem?_map, Option.map_map]
    cases d[i]? <;> simp
  unfold placedObjects
  rw [hzip, List.filterMap_map, List.map_filterMap]
  congr 1
  funext p
  obtain ⟨x, i⟩ := p
  simp only [Function.comp_apply, Definition.object?_mapObject, Option.map_map]
  rfl

theorem typeNames_editObjects {f : Nat → ObjectType → ObjectType}
    (hname : ∀ i t, (f i t).name = t.name) (d : Document) :
    (d.editObjects f).typeNames = d.typeNames := by
  have hmap : (d.editObjects f).map Definition.typeName? = d.map Definition.typeName? := by
    apply List.ext_getElem?
    intro i
    simp only [List.getElem?_map, getElem?_editObjects, Option.map_map]
    congr 1
    funext x
    exact x.typeName?_mapObject (hname i)
  have hfilter : ∀ d : Document, d.typeNames = (d.map Definition.typeName?).filterMap id := by
    intro d
    rw [List.filterMap_map]
    rfl
  rw [hfilter, hmap, ← hfilter]

/-! ### Additions at the end -/

theorem placedObjects_append (d e : Document) :
    (d ++ e).placedObjects =
      d.placedObjects ++ e.placedObjects.map fun p => (d.length + p.1, p.2) := by
  unfold placedObjects
  rw [List.zipIdx_append, List.filterMap_append, Nat.zero_add,
    List.zipIdx_eq_map_add (l := e) (i := d.length), List.filterMap_map, List.map_filterMap]
  congr 2
  funext p
  obtain ⟨x, i⟩ := p
  simp only [Function.comp_apply, Option.map_map]
  rfl

theorem objectAt?_append_left {d : Document} (e : Document) {i : Nat} {t : ObjectType}
    (h : d.objectAt? i = some t) : (d ++ e).objectAt? i = some t := by
  obtain ⟨x, hx, ht⟩ := Option.bind_eq_some_iff.1 h
  unfold objectAt?
  rw [List.getElem?_append_left (List.getElem?_eq_some_iff.1 hx).1, hx]
  exact ht

/-- The objects of a document are what its places hold. -/
theorem mem_placedObjects {d : Document} {i : Nat} {t : ObjectType} :
    (i, t) ∈ d.placedObjects ↔ d.objectAt? i = some t := by
  unfold placedObjects objectAt?
  simp only [List.mem_filterMap, Option.map_eq_some_iff, Prod.mk.injEq, Prod.exists,
    List.mem_zipIdx_iff_getElem?, Option.bind_eq_some_iff]
  constructor
  · intro h
    obtain ⟨x, j, hx, u, hu, rfl, rfl⟩ := h
    exact ⟨x, hx, hu⟩
  · intro h
    obtain ⟨x, hx, hu⟩ := h
    exact ⟨x, i, hx, t, hu, rfl, rfl⟩

end Document

/-! ### The index of types -/

namespace TypeIndex

theorem add_congr (x : TypeIndex) (i : Nat) {t u : ObjectType} (hname : t.name = u.name)
    (hmodel : t.isModel = u.isModel) : add x (i, t) = add x (i, u) := by
  simp only [add, hname, hmodel]

/-- Editing fields in their places does not change what the types are. -/
theorem ofDocument_editObjects {f : Nat → ObjectType → ObjectType}
    (hname : ∀ i t, (f i t).name = t.name)
    (hdirectives : ∀ i t, (f i t).directives = t.directives) (d : Document) :
    ofDocument (d.editObjects f) = ofDocument d := by
  unfold ofDocument
  rw [Document.placedObjects_editObjects, List.foldlM_map]
  congr 1
  funext x p
  obtain ⟨i, t⟩ := p
  exact x.add_congr i (hname i t) (by rw [ObjectType.isModel, hdirectives]; rfl)

/-- A root that is no model is not indexed. -/
theorem add_root (x : TypeIndex) (i : Nat) {t : ObjectType} (hmodel : t.isModel = false)
    (hroot : isRoot t.name = true) : add x (i, t) = .ok x := by
  simp [add, hmodel, hroot]

/-- Adding definitions does not change what the types are, if the only object types
among them are roots. -/
theorem ofDocument_append (d : Document) {e : Document}
    (he : ∀ t ∈ e.objects, t.isModel = false ∧ isRoot t.name = true) :
    ofDocument (d ++ e) = ofDocument d := by
  have hskip : ∀ (placed : List (Nat × ObjectType)) (x : TypeIndex),
      (∀ p ∈ placed, p.2 ∈ e.objects) → placed.foldlM add x = .ok x := by
    intro placed
    induction placed with
    | nil => intro x _; rfl
    | cons p rest ih =>
      intro x hp
      obtain ⟨hmodel, hroot⟩ := he p.2 (hp p (List.mem_cons_self ..))
      rw [List.foldlM_cons, show add x p = .ok x from x.add_root p.1 hmodel hroot]
      exact ih x fun q hq => hp q (List.mem_cons_of_mem _ hq)
  unfold ofDocument
  rw [Document.placedObjects_append, List.foldlM_append]
  cases hd : d.placedObjects.foldlM add {} with
  | error e => rfl
  | ok x =>
    refine hskip _ x fun p hp => ?_
    obtain ⟨⟨i, t⟩, hq, rfl⟩ := List.mem_map.1 hp
    obtain ⟨y, hy, ht⟩ := Option.bind_eq_some_iff.1 (Document.mem_placedObjects.1 hq)
    exact List.mem_filterMap.2 ⟨y, List.mem_of_getElem? hy, ht⟩

end TypeIndex

end GraphqlCypher.Schema
