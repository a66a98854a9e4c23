import GraphqlCypher.Proofs.Mutation.Endless

/-! What reconciling depends on.

An element refers to records by values: a created one by its id, a connected one by its first
key. What it is reconciled to depends on the records that are found by these values and on
nothing else that was read back (`Persisted.outcome_eq_of_refers`). So the order of the records
does not matter, nor what else is among them, as long as each text that is looked up belongs to
one record at most (`Catalog.reconcile_eq_of_refers`).

Different values can have one text: a number and a string that reads like it do. Then the last
record counts, and the order does matter (`Catalog.not_ignoresOrder_twins`). -/
namespace GraphqlCypher

open Schema

/-! ### References -/

/-- What an element refers by, itself and down to the last element under its relations: a value
for a field of a model. -/
inductive Catalog.Refers (c : Catalog) :
    String → NestedAction → Json.Object → String → String → Json → Prop where
  | id {model : String} {arguments : Json.Object} {v : Json}
      (given : Entries.get? arguments Names.id = some v) :
      Refers c model .create arguments model Names.id v
  | first {model field : String} {arguments : Json.Object} {v : Json}
      (given : arguments.head? = some (field, v)) :
      Refers c model .connect arguments model field v
  | under {model field related model' field' : String} {action action' : NestedAction}
      {arguments nested o : Json.Object} {info : ModelInfo} {w v : Json}
      (known : c.model model = .ok info) (relation : (field, related) ∈ info.relations)
      (holds : Entries.get? arguments field = some (.object nested))
      (given : action'.given? nested = some w) (element : .object o ∈ w.elements)
      (refers : Refers c related action' o model' field' v) :
      Refers c model action arguments model' field' v

/-- What is referred by stands somewhere in the arguments. -/
theorem Catalog.Refers.mem_parts {c : Catalog} {model model' field : String} {action : NestedAction}
    {arguments : Json.Object} {v : Json} (h : c.Refers model action arguments model' field v) :
    v ∈ (Json.object arguments).parts := by
  induction h with
  | id given => exact Json.parts_subset_of_mem (Entries.mem_of_get? given) (Json.mem_parts_self _)
  | first given =>
    exact Json.parts_subset_of_mem (List.mem_of_head? given) (Json.mem_parts_self _)
  | under _ _ holds given element _ ih =>
    have supply :=
      Json.parts_subset_of_mem (Entries.mem_of_get? (NestedAction.given?_eq_some.1 given).1)
    have relation := Json.parts_subset_of_mem (Entries.mem_of_get? holds)
    exact relation (supply (Json.parts_subset_of_mem_elements element ih))

namespace Persisted

variable {P P' : Persisted}

/-! ### What is found -/

/-- Only the unique fields of known models are searched. -/
theorem find?_eq_none {model field : String} {v : Json}
    (h : ∀ info, P.catalog.model model = .ok info → field ∉ info.unique) :
    P.find? model field v = none := by
  unfold find?
  split
  · next key info _ hinfo =>
    have other := h info ((Catalog.model_ok_iff _ _ _).2 hinfo)
    rw [if_neg (mt List.contains_iff_mem.1 other)]
  · rfl

theorem find?_congr (same : P'.catalog = P.catalog) {model field : String} {v : Json}
    (h : ∀ info, P.catalog.model model = .ok info → field ∈ info.unique →
      ∀ record, P.IsLast model field v record ↔ P'.IsLast model field v record) :
    P.find? model field v = P'.find? model field v := by
  by_cases searched : ∃ info, P.catalog.model model = .ok info ∧ field ∈ info.unique
  · obtain ⟨info, hinfo, unique⟩ := searched
    refine Option.ext fun record => ?_
    rw [find?_eq_some_iff hinfo unique, find?_eq_some_iff (same ▸ hinfo) unique]
    exact h info hinfo unique record
  · have other : ∀ info, P.catalog.model model = .ok info → field ∉ info.unique :=
      fun info hinfo unique => searched ⟨info, hinfo, unique⟩
    rw [find?_eq_none other, find?_eq_none (same ▸ other)]

theorem found_congr {model : String} {action : NestedAction} {arguments : Json.Object}
    (h : ∀ model' field v, P.catalog.Refers model action arguments model' field v →
      P.find? model' field v = P'.find? model' field v) :
    P.found model action arguments = P'.found model action arguments := by
  cases action with
  | create =>
    show P.created model arguments = P'.created model arguments
    unfold created
    cases hid : Entries.get? arguments Names.id with
    | none => rfl
    | some id => rw [Option.bind_some, Option.bind_some, h _ _ _ (.id hid)]
  | connect =>
    show P.connected model arguments = P'.connected model arguments
    unfold connected
    cases hfirst : arguments.head? with
    | none => rfl
    | some entry =>
      obtain ⟨field, v⟩ := entry
      simp only [Option.bind_some, h _ _ _ (.first hfirst)]

/-- **An element is reconciled with what it refers to.** The induction is on the number of levels;
as the records are flat, the elements that are led to are those of the arguments. -/
theorem outcome_eq_of_refers (same : P'.catalog = P.catalog) (regular : P.catalog.Regular)
    (flat : P.Flat) (keyed : (Json.object P.byModel).WellKeyed) {depth : Nat} :
    ∀ {e : ChainElement}, (∀ model field v,
        P.catalog.Refers e.model e.action e.arguments model field v →
          P.find? model field v = P'.find? model field v) →
      P.outcome depth e = P'.outcome depth e := by
  induction depth with
  | zero => exact fun _ => rfl
  | succ depth ih =>
    intro e h
    refine outcome_congr same regular (found_congr h) fun e' leads => ih fun _ _ _ refers => ?_
    obtain @⟨info, relation, related, nested, o, action, w, known, hmem, holds, given, element⟩ :=
      leads
    have held := get?_of_found flat keyed known (List.mem_map_of_mem hmem) holds
    exact h _ _ _ (.under known hmem held given element refers)

/-! ### Records in another order -/

/-- No two records of a known model share the text of a unique field. -/
def Distinct (P : Persisted) : Prop :=
  ∀ model info, P.catalog.model model = .ok info → ∀ field ∈ info.unique,
    ((P.records model).filterMap (keyBy field)).Nodup

theorem distinct_of_forall (h : ∀ e ∈ P.catalog.models, ∀ field ∈ e.2.unique,
    ((P.records e.1).filterMap (keyBy field)).Nodup) : P.Distinct :=
  fun model info hinfo =>
    h (model, info) (Entries.mem_of_get? ((Catalog.model_ok_iff _ _ _).1 hinfo))

/-- Of the records with one text there is one at most, if the texts are different. -/
theorem length_filter_keyBy_le_one {records : List Json.Object} {field : String}
    (distinct : (records.filterMap (keyBy field)).Nodup) (key : String) :
    (records.filter (keyBy field · == some key)).length ≤ 1 := by
  rw [← List.countP_eq_length_filter, ← List.count_filterMap]
  exact List.nodup_iff_count_le_one.1 distinct key

theorem eq_of_perm_of_length_le_one {α : Type} {l l' : List α} (h : l'.Perm l)
    (short : l.length ≤ 1) : l' = l := by
  match l with
  | [] => exact List.perm_nil.1 h
  | [x] => exact List.perm_singleton.1 h
  | _ :: _ :: _ => simp at short

/-- The record with a text is found in any order, and whatever other records there are. -/
theorem find?_eq_of_perm (same : P'.catalog = P.catalog) {model field : String} {v : Json}
    {added : List Json.Object} (order : (P'.records model).Perm (P.records model ++ added))
    (distinct : ((P.records model).filterMap (keyBy field)).Nodup)
    (others : ∀ record ∈ added, ∀ key, lookupKey? v = some key → keyBy field record ≠ some key) :
    P.find? model field v = P'.find? model field v := by
  unfold find?
  rw [same]
  split
  · next key info hkey _ =>
    have none : added.filter (keyBy field · == some key) = [] :=
      List.filter_eq_nil_iff.2 fun record hrecord => by
        simpa using others record hrecord key hkey
    have order := order.filter (keyBy field · == some key)
    rw [List.filter_append, none, List.append_nil] at order
    have equal := eq_of_perm_of_length_le_one order (length_filter_keyBy_le_one distinct key)
    have found : (P.records model).reverse.find? (keyBy field · == some key) =
        (P'.records model).reverse.find? (keyBy field · == some key) := by
      rw [← List.getLast?_filter, ← List.getLast?_filter, equal]
    unfold keyBy at found
    rw [found]
  · rfl

end Persisted

/-! ### Reconciling -/

theorem Catalog.reconcile_congr {c : Catalog} (regular : c.Regular) {model : String}
    {arguments byModel byModel' : Json.Object} (keyed : (Json.object byModel).WellKeyed)
    (flat : (Persisted.mk c byModel).Flat)
    (h : ∀ model' field v, c.Refers model .create arguments model' field v →
      (Persisted.mk c byModel).find? model' field v =
        (Persisted.mk c byModel').find? model' field v) :
    c.reconcile model arguments (.object byModel) =
      c.reconcile model arguments (.object byModel') := by
  let e : Persisted.ChainElement := ⟨model, .create, arguments⟩
  have same : (Persisted.mk c byModel').catalog = (Persisted.mk c byModel).catalog := rfl
  have equal (depth : Nat) :
      (Persisted.mk c byModel).outcome depth e = (Persisted.mk c byModel').outcome depth e :=
    Persisted.outcome_eq_of_refers same regular flat keyed h
  have ends : (Persisted.mk c byModel).EndsWithin (Json.object arguments).nesting model arguments :=
    Persisted.outcome_ne_endless_of_nesting (P := ⟨c, byModel⟩) regular flat keyed (Nat.le_refl _)
  have ends' : (Persisted.mk c byModel').EndsWithin (Json.object arguments).nesting model
      arguments := by
    rw [Persisted.EndsWithin, ← equal]
    exact ends
  rw [reconcile_eq_outcome regular ends, reconcile_eq_outcome regular ends', equal]

/-- **Reconciling depends on the records that are looked up**, and on nothing else that was read
back. Where no two records share the text of a unique field, it depends neither on their order
nor on further records that no element refers to. -/
theorem Catalog.reconcile_eq_of_refers {d : Document} {c : Catalog} (hc : ofDocument d = .ok c)
    (model : String) (arguments : Json.Object) {byModel : Json.Object}
    (keyed : (Json.object byModel).WellKeyed) (flat : (Persisted.mk c byModel).Flat)
    (byModel' : Json.Object) :
    ((∀ model' info field v, c.Refers model .create arguments model' field v →
        c.model model' = .ok info → field ∈ info.unique → ∀ record,
          (Persisted.mk c byModel).IsLast model' field v record ↔
            (Persisted.mk c byModel').IsLast model' field v record) →
      c.reconcile model arguments (.object byModel) =
        c.reconcile model arguments (.object byModel')) ∧
    ((Persisted.mk c byModel).Distinct → ∀ added : String → List Json.Object,
      (∀ model', ((Persisted.mk c byModel').records model').Perm
        ((Persisted.mk c byModel).records model' ++ added model')) →
      (∀ model' info field v, c.Refers model .create arguments model' field v →
        c.model model' = .ok info → field ∈ info.unique → ∀ record ∈ added model', ∀ key,
          lookupKey? v = some key → Persisted.keyBy field record ≠ some key) →
      c.reconcile model arguments (.object byModel) =
        c.reconcile model arguments (.object byModel')) := by
  have regular := regular_ofDocument hc
  have same : (Persisted.mk c byModel').catalog = (Persisted.mk c byModel).catalog := rfl
  constructor
  · intro alike
    refine reconcile_congr regular keyed flat fun model' field v refers => ?_
    exact Persisted.find?_congr same
      fun info hinfo unique record => alike model' info field v refers hinfo unique record
  · intro distinct added order others
    refine reconcile_congr regular keyed flat fun model' field v refers => ?_
    by_cases searched : ∃ info, c.model model' = .ok info ∧ field ∈ info.unique
    · obtain ⟨info, hinfo, unique⟩ := searched
      exact Persisted.find?_eq_of_perm same (order model')
        (distinct model' info hinfo field unique)
        (others model' info field v refers hinfo unique)
    · have unsearched : ∀ info, c.model model' = .ok info → field ∉ info.unique :=
        fun info hinfo unique => searched ⟨info, hinfo, unique⟩
      rw [Persisted.find?_eq_none (P := ⟨c, byModel⟩) unsearched,
        Persisted.find?_eq_none (P := ⟨c, byModel'⟩) unsearched]

/-! ### Guests -/

/-- Somebody who knows somebody else. -/
def guestTree : Json.Object :=
  [("id", .string "a"), ("friends", .object [("connect", .array [.object [("id", .string "b")]])])]

def guest (id name : String) : Json.Object := [("id", .string id), ("name", .string name)]

/-- Both of them, as they were read back. -/
def guests : Json.Object :=
  [("Person", .array [.object (guest "a" "Ada"), .object (guest "b" "Bob")])]

/-- Both in another order, and somebody else. -/
def crowd : Json.Object :=
  [("Person", .array
    [.object (guest "z" "Zoe"), .object (guest "b" "Bob"), .object (guest "a" "Ada")])]

theorem Catalog.reconcile_eq_of_refers_guests :
    friendsCatalog.reconcile "Person" guestTree (.object guests) =
      friendsCatalog.reconcile "Person" guestTree (.object crowd) := by
  have flat : (Persisted.mk friendsCatalog guests).Flat := Persisted.flat_of_forall (by decide)
  have distinct : (Persisted.mk friendsCatalog guests).Distinct :=
    Persisted.distinct_of_forall (by decide)
  have unknown : ∀ v ∈ (Json.object guestTree).parts, lookupKey? v ≠ some "z" := by decide
  obtain ⟨-, reordered⟩ := reconcile_eq_of_refers (d := friends) rfl "Person" guestTree
    (by decide) flat crowd
  refine reordered distinct (fun model => if model = "Person" then [guest "z" "Zoe"] else [])
    (fun model => ?_) (fun model info field v refers hinfo unique record hrecord key hkey => ?_)
  · by_cases hmodel : model = "Person"
    · subst hmodel
      exact List.reverse_perm [guest "a" "Ada", guest "b" "Bob", guest "z" "Zoe"]
    · rw [if_neg hmodel]
      simp [Persisted.records, guests, crowd, Entries.get?_cons, Ne.symm hmodel]
  · by_cases hmodel : model = "Person"
    · subst hmodel
      cases hinfo
      obtain rfl := List.mem_singleton.1 unique
      obtain rfl := List.mem_singleton.1 hrecord
      rintro ⟨⟩
      exact unknown v refers.mem_parts hkey
    · rw [if_neg hmodel] at hrecord
      cases hrecord

/-! ### Values with one text -/

/-- The order of the records changes nothing, as long as the values of each unique field are
different. -/
def Catalog.IgnoresOrder (c : Catalog) (model : String)
    (arguments byModel byModel' : Json.Object) : Prop :=
  (Persisted.mk c byModel).Flat → (Persisted.mk c byModel').Flat →
  (∀ model' info, c.model model' = .ok info → ∀ field ∈ info.unique,
    (((Persisted.mk c byModel).records model').filterMap fun record =>
      Json.given? (Entries.get? record field)).Nodup) →
  (∀ model', ((Persisted.mk c byModel').records model').Perm
    ((Persisted.mk c byModel).records model')) →
  c.reconcile model arguments (.object byModel) = c.reconcile model arguments (.object byModel')

/-- Two people, whose ids are a number and a string that reads like it. -/
def twins : List Json.Object :=
  [[("id", .number (.integer 1)), ("name", .string "Ada")],
    [("id", .string "1"), ("name", .string "Bob")]]

/-- **The order of records whose values have one text matters.** -/
theorem Catalog.not_ignoresOrder_twins : ofDocument friends = .ok friendsCatalog ∧
    ¬ friendsCatalog.IgnoresOrder "Person" [("id", .string "1")]
      [("Person", .array (twins.map Json.object))]
      [("Person", .array (twins.reverse.map Json.object))] := by
  refine ⟨rfl, fun ignores => ?_⟩
  have same := ignores (Persisted.flat_of_forall (by decide)) (Persisted.flat_of_forall (by decide))
    (fun model info hinfo field unique => ?_) (fun model => ?_)
  · have names := congrArg (Except.map fun v => (v.get? "name").bind Json.asString?) same
    revert names
    decide
  · have entry := Entries.mem_of_get? ((model_ok_iff _ _ _).1 hinfo)
    cases List.mem_singleton.1 entry
    cases List.mem_singleton.1 unique
    simp [Persisted.records, twins, Entries.get?_cons, Json.given?, Json.asArray?, Json.asObject?]
  · by_cases hmodel : model = "Person"
    · subst hmodel
      exact List.reverse_perm twins
    · simp [Persisted.records, Entries.get?_cons, Ne.symm hmodel]

end GraphqlCypher
