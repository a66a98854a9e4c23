import GraphqlCypher.Proofs.Catalog.Creates
import GraphqlCypher.Proofs.Json.WellKeyed
import GraphqlCypher.Proofs.Mutation.Resolve

/-! Which record an element is looked up as.

`Persisted.IsLast` says what a look-up is for: the last record of a model whose field has a
key. `Persisted.find?_eq_some_iff` says that this is what is found, for every field by which
the nodes of a model can be found. Records are flat if they hold no relations; then a look-up
decides what an element stores and leaves its relations as the caller gave them. -/
namespace GraphqlCypher

open Schema

/-! ### Catalogs of documents -/

namespace Catalog

/-- What the catalog of a document knows of each model: its relations are different fields,
and its nodes can be found by their ids. -/
def Regular (c : Catalog) : Prop :=
  ∀ model info, c.model model = .ok info →
    (Entries.keys info.relations).Nodup ∧ Names.id ∈ info.unique

theorem regular_ofDocument {d : Document} {c : Catalog} (h : ofDocument d = .ok c) :
    c.Regular := by
  obtain ⟨x, hx⟩ := index_of_ofDocument h
  intro model info hinfo
  obtain ⟨m, -, -, rfl⟩ := mem_of_model (congrArg Catalog.models (eq_of_ofDocument h)) hinfo
  exact ⟨Entries.nodup_keys_ofList _, ModelInfo.id_mem_unique m⟩

end Catalog

namespace Persisted

variable {P : Persisted} {model : String} {info : ModelInfo}

/-! ### Look-ups -/

/-- The text under which a record is found by a field. -/
def keyBy (field : String) (record : Json.Object) : Option String :=
  (Entries.get? record field).bind lookupKey?

/-- A record is the last one of its model whose field has the key of a value. -/
def IsLast (P : Persisted) (model field : String) (v : Json) (record : Json.Object) : Prop :=
  ∃ key before after, lookupKey? v = some key ∧ P.records model = before ++ record :: after ∧
    keyBy field record = some key ∧ ∀ other ∈ after, keyBy field other ≠ some key

/-- Searching a list from its end finds the last element. -/
theorem find?_reverse_eq_some_iff {α : Type} {p : α → Bool} {l : List α} {x : α} :
    l.reverse.find? p = some x ↔
      ∃ before after, l = before ++ x :: after ∧ p x = true ∧ ∀ y ∈ after, p y = false := by
  rw [List.find?_eq_some_iff_append]
  constructor
  · rintro ⟨hx, before, after, hl, hbefore⟩
    refine ⟨after.reverse, before.reverse, ?_, hx, fun y hy => ?_⟩
    · rw [← List.reverse_reverse l, hl]
      simp
    · simpa using hbefore y (List.mem_reverse.1 hy)
  · rintro ⟨before, after, rfl, hx, hafter⟩
    exact ⟨hx, after.reverse, before.reverse, by simp, by simpa using hafter⟩

/-- **What is found is the last record with the key.** -/
theorem find?_eq_some_iff (hinfo : P.catalog.model model = .ok info) {field : String}
    (unique : field ∈ info.unique) {v : Json} {record : Json.Object} :
    P.find? model field v = some record ↔ P.IsLast model field v record := by
  have known := (Catalog.model_ok_iff _ _ _).1 hinfo
  have searched : info.unique.contains field = true := List.contains_iff_mem.2 unique
  unfold find? IsLast keyBy
  cases lookupKey? v with
  | none => simp
  | some key =>
    simp only [known, searched, if_true, find?_reverse_eq_some_iff, beq_iff_eq, beq_eq_false_iff_ne,
      Option.some.injEq, exists_and_left, exists_eq_left']

theorem mem_records_of_find? {field : String} {v : Json} {record : Json.Object}
    (h : P.find? model field v = some record) : record ∈ P.records model := by
  unfold find? at h
  split at h
  · split at h
    · exact List.mem_reverse.1 (List.mem_of_find?_eq_some h)
    · cases h
  · cases h

/-! ### Flat records -/

/-- No record has a key that is a relation of its model. -/
def Flat (P : Persisted) : Prop :=
  ∀ model info, P.catalog.model model = .ok info → ∀ record ∈ P.records model,
    ∀ field ∈ Entries.keys info.relations, field ∉ Entries.keys record

theorem flat_of_forall (h : ∀ e ∈ P.catalog.models, ∀ record ∈ P.records e.1,
    ∀ field ∈ Entries.keys e.2.relations, field ∉ Entries.keys record) : P.Flat :=
  fun model info hinfo => h (model, info) (Entries.mem_of_get? ((Catalog.model_ok_iff _ _ _).1 hinfo))

/-- Records are the objects in the list under their model. -/
theorem exists_items_of_mem_records {record : Json.Object} (h : record ∈ P.records model) :
    ∃ items, Entries.get? P.byModel model = some (.array items) ∧ .object record ∈ items := by
  obtain ⟨v, hv, hobject⟩ := List.mem_filterMap.1 h
  have value : v = .object record := by
    cases v <;> cases hobject
    rfl
  subst value
  cases hbind : (Entries.get? P.byModel model).bind Json.asArray? with
  | none =>
    rw [hbind] at hv
    cases hv
  | some items =>
    rw [hbind] at hv
    obtain ⟨list, hlist, harray⟩ := Option.bind_eq_some_iff.1 hbind
    have array : list = .array items := by
      cases list <;> cases harray
      rfl
    exact ⟨items, array ▸ hlist, hv⟩

/-- Records are parts of what was read back. -/
theorem wellKeyed_of_mem_records (keyed : (Json.object P.byModel).WellKeyed)
    {record : Json.Object} (h : record ∈ P.records model) : (Json.object record).WellKeyed := by
  obtain ⟨items, hitems, hrecord⟩ := exists_items_of_mem_records h
  have whole : (Json.array items).WellKeyed := keyed.of_get? hitems
  exact whole.of_mem_elements hrecord

/-- The record of a created element, found by its id. -/
def recordOf? (P : Persisted) (model : String) (arguments : Json.Object) : Option Json.Object :=
  (Entries.get? arguments Names.id).bind (P.find? model Names.id)

theorem mem_records_of_recordOf? {arguments record : Json.Object}
    (h : P.recordOf? model arguments = some record) : record ∈ P.records model := by
  obtain ⟨id, -, hfound⟩ := Option.bind_eq_some_iff.1 h
  exact mem_records_of_find? hfound

/-- A created element stores what its record does, and what the caller gave besides. -/
theorem get?_created (keyed : (Json.object P.byModel).WellKeyed) (arguments : Json.Object)
    (k : String) :
    Entries.get? (P.created model arguments) k =
      ((P.recordOf? model arguments).bind fun record => Entries.get? record k).or
        (Entries.get? arguments k) := by
  unfold created
  split
  · next record hfound =>
    have found : P.recordOf? model arguments = some record := hfound
    have record := wellKeyed_of_mem_records keyed (mem_records_of_recordOf? found)
    rw [found]
    exact Entries.get?_insertAll record.nodup_keys k
  · next hfound =>
    have found : P.recordOf? model arguments = none := hfound
    rw [found]
    rfl

theorem nodup_keys_created {arguments : Json.Object} (h : (Entries.keys arguments).Nodup) :
    (Entries.keys (P.created model arguments)).Nodup := by
  unfold created
  split
  · exact Entries.nodup_keys_insertAll _ _ h
  · exact h

section
variable (flat : P.Flat) (hinfo : P.catalog.model model = .ok info) {field : String}
  (hfield : field ∈ Entries.keys info.relations)
include flat hinfo hfield

theorem get?_record_relation {record : Json.Object} (h : record ∈ P.records model) :
    Entries.get? record field = none :=
  Entries.get?_eq_none (flat model info hinfo record h field hfield)

/-- The relations of a created element are those that the caller gave. -/
theorem get?_created_relation (keyed : (Json.object P.byModel).WellKeyed)
    (arguments : Json.Object) :
    Entries.get? (P.created model arguments) field = Entries.get? arguments field := by
  rw [get?_created keyed]
  cases hfound : P.recordOf? model arguments with
  | none => rfl
  | some record =>
    have absent := get?_record_relation flat hinfo hfield (mem_records_of_recordOf? hfound)
    rw [Option.bind_some, absent, Option.none_or]

/-- The relations of a connected element are those that the caller gave, or there are none. -/
theorem get?_connected_relation (arguments : Json.Object) :
    Entries.get? (P.connected model arguments) field = Entries.get? arguments field ∨
      Entries.get? (P.connected model arguments) field = none := by
  unfold connected
  split
  · next record hfound =>
    obtain ⟨_, -, hrecord⟩ := Option.bind_eq_some_iff.1 hfound
    exact .inr (get?_record_relation flat hinfo hfield (mem_records_of_find? hrecord))
  · exact .inl rfl

end

end Persisted

/-! ### Friends who were read back -/

/-- Records of two people, one of whom was read twice. -/
def friendsRecords : Json.Object :=
  [("Person", .array [
    .object [("id", .string "a"), ("name", .string "Ada")],
    .object [("id", .string "b"), ("name", .string "Bob")],
    .object [("id", .string "b"), ("name", .string "Bo")]])]

end GraphqlCypher
