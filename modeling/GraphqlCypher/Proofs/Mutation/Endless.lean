import GraphqlCypher.Proofs.Json.Parts
import GraphqlCypher.Proofs.Mutation.Levels
import GraphqlCypher.Proofs.Mutation.Mirror
import GraphqlCypher.Proofs.Mutation.Shaped
import Mathlib.Data.List.ProdSigma
import Mathlib.Tactic.Ring

/-! When reconciling comes to an end.

A record may hold relations of its own, and these are looked up in their turn, so the nesting
of arguments and records says nothing about the number of elements that are chained: people
of whom each is connected to the next make a chain as long as there are people, and somebody
who is connected to himself makes one without end (`not_endsWithin_knot`).

**Main result.** `reconcile_ends`: if reconciling ends at all, then with as many levels as
`Persisted.depthBound` allows, and with flat records it ends within the nesting of the
arguments. For if `k` levels are too few and one more is enough, then some element it leads to
takes just one level less; the elements down such a chain are all different, and there are
no more different ones than models, actions and parts of what is at hand. -/
namespace GraphqlCypher

open Schema

namespace Persisted

variable {P : Persisted} {e e' : ChainElement} {k : Nat}

/-! ### Where elements stand -/

theorem parts_subset_of_mem_records {model : String} {record : Json.Object}
    (h : record ∈ P.records model) :
    (Json.object record).parts ⊆ (Json.object P.byModel).parts := by
  obtain ⟨items, hitems, hrecord⟩ := exists_items_of_mem_records h
  have list := Json.parts_subset_of_mem (Entries.mem_of_get? hitems)
  exact List.Subset.trans (Json.parts_subset_of_mem_elements (v := .array items) hrecord) list

/-- What an element holds when it was looked up was given by the caller or is in a record. -/
theorem mem_of_found {model : String} {action : NestedAction} {arguments : Json.Object}
    {entry : String × Json} (h : entry ∈ P.found model action arguments) :
    entry ∈ arguments ∨ ∃ record ∈ P.records model, entry ∈ record := by
  cases action with
  | create =>
    change entry ∈ P.created model arguments at h
    unfold created at h
    split at h
    · next record hrecord =>
      exact (Entries.mem_insertAll h).imp_right fun h =>
        ⟨record, mem_records_of_recordOf? hrecord, h⟩
    · exact .inl h
  | connect =>
    change entry ∈ P.connected model arguments at h
    unfold connected at h
    split at h
    · next record hrecord =>
      obtain ⟨_, -, hfound⟩ := Option.bind_eq_some_iff.1 hrecord
      exact .inr ⟨record, mem_records_of_find? hfound, h⟩
    · exact .inl h

/-- Elements stand in the arguments or in the records, all along a chain. -/
theorem LeadsTo.parts_subset {values : List Json} (h : P.LeadsTo e e')
    (persisted : (Json.object P.byModel).parts ⊆ values)
    (stands : (Json.object e.arguments).parts ⊆ values) :
    (Json.object e'.arguments).parts ⊆ values := by
  obtain @⟨info, field, related, nested, o, action, v, -, -, holds, given, element⟩ := h
  have relation : (Json.object nested).parts ⊆ values := by
    rcases mem_of_found (Entries.mem_of_get? holds) with hmem | ⟨record, hrecord, hmem⟩
    · exact List.Subset.trans (Json.parts_subset_of_mem hmem) stands
    · exact List.Subset.trans (Json.parts_subset_of_mem hmem)
        (List.Subset.trans (parts_subset_of_mem_records hrecord) persisted)
  have supply :=
    Json.parts_subset_of_mem (Entries.mem_of_get? (NestedAction.given?_eq_some.1 given).1)
  exact List.Subset.trans (Json.parts_subset_of_mem_elements element)
    (List.Subset.trans supply relation)

/-! ### Chains of elements -/

/-- So many levels are too few for an element, and one more is enough. -/
def Takes (P : Persisted) (k : Nat) (e : ChainElement) : Prop :=
  P.outcome k e = .error .endless ∧ P.outcome (k + 1) e ≠ .error .endless

theorem exists_takes {depth : Nat} (h : P.outcome depth e ≠ .error .endless) :
    ∃ k < depth, P.Takes k e := by
  induction depth with
  | zero => exact absurd rfl h
  | succ depth ih =>
    by_cases few : P.outcome depth e = .error .endless
    · exact ⟨depth, Nat.lt_succ_self depth, few, h⟩
    · obtain ⟨k, hk, takes⟩ := ih few
      exact ⟨k, Nat.lt_succ_of_lt hk, takes⟩

/-- More levels than it takes are enough. -/
theorem Takes.le (h : P.Takes k e) {depth : Nat} (few : P.outcome depth e = .error .endless) :
    depth ≤ k := by
  by_contra more
  have same := (outcome_anticipates (Nat.not_le.1 more) e).eq h.2
  exact h.2 (same.trans few)

/-- An element leads to one that takes just one level less. -/
theorem Takes.exists_next (regular : P.catalog.Regular) (h : P.Takes (k + 1) e) :
    ∃ e', P.LeadsTo e e' ∧ P.Takes k e' := by
  by_contra none
  have same : ∀ e', P.LeadsTo e e' → P.outcome k e' = P.outcome (k + 1) e' := by
    intro e' leads
    rcases outcome_anticipates (Nat.le_succ k) e' with few | same
    · by_contra enough
      exact none ⟨e', leads, few, fun more => enough (few.trans more.symm)⟩
    · exact same
  exact h.2 ((outcome_congr rfl regular rfl same).symm.trans h.1)

/-- An element that takes so many levels leads along as many different elements of known
models. -/
theorem Takes.exists_chain (regular : P.catalog.Regular) {I : ChainElement → Prop}
    (kept : ∀ e e', I e → P.LeadsTo e e' → I e') :
    ∀ {k e}, P.Takes k e → I e → ∃ chain : List ChainElement, chain.length = k ∧ chain.Nodup ∧
      ∀ e' ∈ chain, I e' ∧ (∃ info, P.catalog.model e'.model = .ok info) ∧
        ∃ j ≤ k, P.Takes j e' := by
  intro k
  induction k with
  | zero => exact fun _ _ => ⟨[], rfl, List.nodup_nil, by simp⟩
  | succ k ih =>
    intro e takes start
    obtain ⟨e', leads, next⟩ := takes.exists_next regular
    obtain ⟨chain, length, distinct, each⟩ := ih next (kept e e' start leads)
    have known : ∃ info, P.catalog.model e.model = .ok info := by
      obtain ⟨known, -, -, -, -⟩ := leads
      exact ⟨_, known⟩
    refine ⟨e :: chain, congrArg (· + 1) length, List.nodup_cons.2 ⟨fun hmem => ?_, distinct⟩, ?_⟩
    · -- All further elements take fewer levels.
      obtain ⟨-, -, j, hj, fewer⟩ := each e hmem
      have := fewer.le takes.1
      omega
    · intro e' hmem
      rcases List.mem_cons.1 hmem with rfl | hmem
      · exact ⟨start, known, k + 1, Nat.le_refl _, takes⟩
      · obtain ⟨hI, known, j, hj, fewer⟩ := each e' hmem
        exact ⟨hI, known, j, Nat.le_succ_of_le hj, fewer⟩

/-- **No element takes more levels than are allowed.** -/
theorem Takes.lt_depthBound (regular : P.catalog.Regular) {model : String}
    {arguments : Json.Object} (h : P.Takes k ⟨model, .create, arguments⟩) :
    k < P.depthBound arguments := by
  let names := Entries.keys P.catalog.models
  let values := (Json.object arguments).parts ++ (Json.object P.byModel).parts
  let place (e : ChainElement) := (e.model, e.action, Json.object e.arguments)
  obtain ⟨chain, length, distinct, each⟩ := h.exists_chain regular
    (I := fun e => (Json.object e.arguments).parts ⊆ values)
    (fun e e' stands leads => leads.parts_subset (List.subset_append_right _ _) stands)
    (List.subset_append_left _ _)
  have places : (chain.map place).Nodup := by
    refine distinct.map fun e e' same => ?_
    obtain ⟨model, action, arguments⟩ := e
    simp only [place, Prod.mk.injEq, Json.object.injEq] at same
    obtain ⟨rfl, rfl, rfl⟩ := same
    rfl
  have within : chain.map place ⊆ names ×ˢ ([NestedAction.create, .connect] ×ˢ values) := by
    intro p hp
    obtain ⟨e, he, rfl⟩ := List.mem_map.1 hp
    obtain ⟨stands, ⟨info, known⟩, -⟩ := each e he
    have name : e.model ∈ names :=
      List.mem_map_of_mem (Entries.mem_of_get? ((Catalog.model_ok_iff _ _ _).1 known))
    have action : e.action ∈ [NestedAction.create, .connect] := by cases e.action <;> decide
    exact List.mem_product.2 ⟨name, List.mem_product.2 ⟨action, stands (Json.mem_parts_self _)⟩⟩
  have count : k ≤ names.length * (2 * values.length) := by
    have subset := places.length_le_of_subset within
    simpa only [List.length_map, List.length_product, List.length_cons, List.length_nil, length]
      using subset
  have extent : values.length = Json.sizeEntries arguments + Json.sizeEntries P.byModel + 2 := by
    simp only [values, List.length_append, Json.length_parts, Json.size]
    omega
  have allowed :
      P.depthBound arguments = names.length * (2 * values.length) + 2 * values.length := by
    rw [extent]
    simp only [depthBound, names, Entries.keys, List.length_map]
    ring
  omega

/-! ### Flat records -/

/-- With flat records an element leads to what is nested in it. -/
theorem LeadsTo.nesting_lt (flat : P.Flat) (persisted : (Json.object P.byModel).WellKeyed)
    (h : P.LeadsTo e e') :
    (Json.object e'.arguments).nesting < (Json.object e.arguments).nesting := by
  obtain @⟨info, field, related, nested, o, action, v, known, relation, holds, given, element⟩ := h
  have held := get?_of_found flat persisted known (List.mem_map_of_mem relation) holds
  have inner := Json.nesting_le_of_mem_elements element
  have supply :=
    Json.nesting_lt_of_mem (Entries.mem_of_get? (NestedAction.given?_eq_some.1 given).1)
  have outer := Json.nesting_lt_of_mem (Entries.mem_of_get? held)
  show (Json.object o).nesting < _
  omega

/-- With flat records an element takes no more levels than it is nested. -/
theorem outcome_ne_endless_of_nesting (regular : P.catalog.Regular) (flat : P.Flat)
    (persisted : (Json.object P.byModel).WellKeyed) {depth : Nat} :
    ∀ {e : ChainElement}, (Json.object e.arguments).nesting ≤ depth →
      P.outcome depth e ≠ .error .endless := by
  induction depth with
  | zero =>
    intro e small
    rw [Json.nesting] at small
    omega
  | succ depth ih =>
    intro e small h
    rcases exists_error_of_outcome regular h with unknown | ⟨e', leads, failed⟩
    · cases unknown
    · have inner := leads.nesting_lt flat persisted
      exact ih (by omega) failed

/-- Reconciling a root is over when so many elements are chained. -/
def EndsWithin (P : Persisted) (depth : Nat) (model : String) (arguments : Json.Object) : Prop :=
  P.outcome depth ⟨model, .create, arguments⟩ ≠ .error .endless

/-- If it is ever over, it is so within the bound. -/
theorem EndsWithin.depthBound (regular : P.catalog.Regular) {depth : Nat} {model : String}
    {arguments : Json.Object} (h : P.EndsWithin depth model arguments) :
    P.EndsWithin (P.depthBound arguments) model arguments := by
  obtain ⟨k, -, takes⟩ := exists_takes h
  intro few
  exact absurd (takes.le few) (Nat.not_le.2 (takes.lt_depthBound regular))

end Persisted

/-- Any number of levels that are enough leads to what is returned. -/
theorem Catalog.reconcile_eq_outcome {c : Catalog} (regular : c.Regular) {depth : Nat}
    {model : String} {arguments byModel : Json.Object}
    (ends : (Persisted.mk c byModel).EndsWithin depth model arguments) :
    c.reconcile model arguments (.object byModel) =
      ((Persisted.mk c byModel).outcome depth ⟨model, .create, arguments⟩).map Json.object := by
  let P : Persisted := ⟨c, byModel⟩
  have bounded : c.reconcile model arguments (.object byModel) =
      (P.outcome (P.depthBound arguments) ⟨model, .create, arguments⟩).map Json.object := rfl
  have enough := Persisted.EndsWithin.depthBound (P := P) regular ends
  rw [bounded]
  rcases Nat.le_total depth (P.depthBound arguments) with hle | hle
  · rw [(Persisted.outcome_anticipates hle _).eq ends]
  · rw [(Persisted.outcome_anticipates hle _).eq enough]

/-- **Reconciling ends or has no end.** What it returns is what its recursion comes to with
any number of levels that are enough; it reports records without end just when no number
is; and with flat records the nesting of the arguments is enough. -/
theorem Catalog.reconcile_ends {d : Document} {c : Catalog} (hc : ofDocument d = .ok c)
    (model : String) (arguments byModel : Json.Object) :
    (∀ depth, (Persisted.mk c byModel).EndsWithin depth model arguments →
      c.reconcile model arguments (.object byModel) =
        ((Persisted.mk c byModel).outcome depth ⟨model, .create, arguments⟩).map Json.object) ∧
    (c.reconcile model arguments (.object byModel) = .error .endless ↔
      ∀ depth, ¬ (Persisted.mk c byModel).EndsWithin depth model arguments) ∧
    ((Json.object byModel).WellKeyed → (Persisted.mk c byModel).Flat →
      (Persisted.mk c byModel).EndsWithin (Json.object arguments).nesting model arguments) := by
  have regular := regular_ofDocument hc
  let P : Persisted := ⟨c, byModel⟩
  have bounded : c.reconcile model arguments (.object byModel) =
      (P.outcome (P.depthBound arguments) ⟨model, .create, arguments⟩).map Json.object := rfl
  refine ⟨fun depth ends => ?_, ⟨fun h depth ends => ?_, fun none => ?_⟩, fun persisted flat => ?_⟩
  · exact reconcile_eq_outcome regular ends
  · rw [bounded] at h
    exact Persisted.EndsWithin.depthBound (P := P) regular ends (error_of_map h)
  · rw [bounded, Classical.not_not.1 (none (P.depthBound arguments))]
    rfl
  · exact Persisted.outcome_ne_endless_of_nesting (P := P) regular flat persisted (Nat.le_refl _)

theorem Catalog.reconcile_ends_friends :
    (Persisted.mk friendsCatalog friendsRecords).EndsWithin (Json.object friendsTree).nesting
      "Person" friendsTree :=
  (reconcile_ends (d := friends) rfl "Person" friendsTree friendsRecords).2.2 (by decide)
    (Persisted.flat_of_forall (by decide))

/-! ### People who follow each other -/

/-- Somebody who is connected to somebody else. -/
def follows (who whom : String) : Json.Object :=
  [("id", .string who), ("friends", .object [("connect", .object [("id", .string whom)])])]

/-- Somebody who was read back as connected to himself. -/
def knot : Persisted := ⟨friendsCatalog, [("Person", .array [.object (follows "a" "a")])]⟩

/-- Eight people who were read back, of whom each is connected to the next. -/
def queue : Persisted :=
  ⟨friendsCatalog, [("Person", .array
    (["a", "b", "c", "d", "e", "f", "g", "h"].zipWith (fun who whom => .object (follows who whom))
      ["b", "c", "d", "e", "f", "g", "h", "i"]))]⟩

theorem resolve_knot (depth : Nat) :
    knot.resolve depth "Person" (follows "a" "a") = .error .endless := by
  induction depth with
  | zero => rfl
  | succ depth ih =>
    -- Its only relation connects it to itself.
    have again : knot.resolve (depth + 1) "Person" (follows "a" "a") =
        (knot.resolve depth "Person" (follows "a" "a")).map fun out =>
          [("id", .string "a"), ("friends", .object out)] := by
      show (((knot.resolve depth "Person" (follows "a" "a")).map Json.object).map some >>= _) >>=
        _ = _
      cases knot.resolve depth "Person" (follows "a" "a") <;> rfl
    rw [again, ih]
    rfl

/-- **The nesting of arguments and records is no bound**: it is exceeded by people in a queue,
and for a knot there is none. -/
theorem not_endsWithin_knot :
    (∀ depth, ¬ knot.EndsWithin depth "Person" [("id", .string "a")]) ∧
      ¬ queue.EndsWithin ((Json.object [("id", .string "a")]).nesting +
          (Json.object queue.byModel).nesting) "Person" [("id", .string "a")] ∧
      queue.EndsWithin 10 "Person" [("id", .string "a")] := by
  refine ⟨fun depth ends => ends (resolve_knot depth), fun ends => ends rfl, ?_⟩
  intro few
  cases few

end GraphqlCypher
