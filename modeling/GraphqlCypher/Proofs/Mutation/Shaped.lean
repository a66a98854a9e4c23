import GraphqlCypher.Plan
import GraphqlCypher.Proofs.Mutation.Lookup
import GraphqlCypher.Proofs.Mutation.Tidy

/-! Shaping what was read back.

The database has committed when its records are shaped, so a failure loses the result. What
a compiled mutation was checked for is what shaping needs: its arguments are tidy, so every
model that is reached in them is known, and there are no more levels than reconciling allows.

**Main result.** `shapes_of_compile`: the records of a compiled create mutation are shaped
into an object under the name of the mutation if they are flat, and are refused for their
shape just when there is no object in the first column. -/
namespace GraphqlCypher

/-! ### Failures -/

/-- What can go wrong when records are put into the shape of a response. -/
def Failure.isOfRecords : Failure → Bool
  | .noRecords | .notGrouped => true
  | f => f.isOfElements

/-- What comes back has the wrong shape. Records that contain each other have none to be
wrong: reconciling them has no end, and `endless` stands for that. -/
def Failure.isResultShape : Failure → Bool
  | .noRecords | .notGrouped | .notRegistered | .resultShape _ => true
  | _ => false

theorem Failure.isResultShape_eq_false {e : Failure} (h : e.isOfElements) :
    e.isResultShape = false := by
  cases e <;> first | rfl | cases h

theorem Catalog.isOfElements_of_reconcile_error {c : Catalog} {model : String}
    {arguments byModel : Json.Object} {e : Failure}
    (h : c.reconcile model arguments (.object byModel) = .error e) : e.isOfElements := by
  exact Persisted.isOfElements_of_resolve_error _ (error_of_map h)

theorem Catalog.reconcile_of_not_object {c : Catalog} {model : String} {arguments : Json.Object}
    {v : Json} (h : ∀ byModel, v ≠ .object byModel) :
    c.reconcile model arguments v = .error .notGrouped := by
  cases v with
  | object byModel => exact absurd rfl (h byModel)
  | _ => rfl

theorem Failure.isOfRecords_of_isOfElements {e : Failure} (h : e.isOfElements) :
    e.isOfRecords := by
  cases e <;> first | rfl | cases h

namespace Plan

theorem shape_of_none {c : Catalog} {p : Plan} {records : List Record}
    (h : firstValue? records = none) : p.shape c records = .error .noRecords := by
  unfold shape
  rw [h]

theorem shape_create {c : Catalog} {m : CompiledCreate} {records : List Record} {first : Json}
    (h : firstValue? records = some first) :
    (mutation (.create m)).shape c records =
      (c.reconcile m.model m.arguments first).map fun v => .object [(m.mutation, v)] := by
  unfold shape
  rw [h]

/-- **Shaping fails for want of records, or because they do not fit the catalog.** -/
theorem isOfRecords_of_shape_error {c : Catalog} {p : Plan} {records : List Record}
    {e : Failure} (h : p.shape c records = .error e) : e.isOfRecords := by
  cases hfirst : firstValue? records with
  | none =>
    rw [shape_of_none hfirst] at h
    cases h
    rfl
  | some first =>
    unfold shape at h
    rw [hfirst] at h
    cases p with
    | query s => cases h
    | passthrough field s => cases h
    | mutation m =>
      cases m with
      | add m => cases h
      | create m =>
        have failed := error_of_map h
        cases first with
        | object byModel =>
          exact Failure.isOfRecords_of_isOfElements (Catalog.isOfElements_of_reconcile_error failed)
        | _ =>
          cases failed
          rfl

/-- There is no first record, it has no column, or its first column is no object. -/
def LacksObject (records : List Record) : Prop :=
  records = [] ∨ records.head? = some [] ∨
    ∃ v, firstValue? records = some v ∧ ∀ byModel, v ≠ .object byModel

theorem lacksObject_iff {records : List Record} :
    LacksObject records ↔ ∀ byModel, firstValue? records ≠ some (.object byModel) := by
  cases records with
  | nil => simp [LacksObject, firstValue?]
  | cons record rest =>
    cases record with
    | nil => simp [LacksObject, firstValue?]
    | cons v row => simp [LacksObject, firstValue?]

/-- Shaping the records of a create refuses their shape just when there is no object. -/
theorem exists_isResultShape_iff {c : Catalog} {m : CompiledCreate} {records : List Record} :
    (∃ e, (mutation (.create m)).shape c records = .error e ∧ e.isResultShape) ↔
      LacksObject records := by
  rw [lacksObject_iff]
  constructor
  · rintro ⟨e, he, shaped⟩ byModel hfirst
    rw [shape_create hfirst] at he
    have elements := Catalog.isOfElements_of_reconcile_error (error_of_map he)
    rw [Failure.isResultShape_eq_false elements] at shaped
    cases shaped
  · intro h
    cases hfirst : firstValue? records with
    | none => exact ⟨_, shape_of_none hfirst, rfl⟩
    | some v =>
      have other : ∀ byModel, v ≠ .object byModel := fun byModel e => h byModel (e ▸ hfirst)
      refine ⟨.notGrouped, ?_, rfl⟩
      rw [shape_create hfirst, Catalog.reconcile_of_not_object other]
      rfl

end Plan

/-! ### Tidy arguments -/

namespace Persisted

variable {P : Persisted}

/-- What stands at a relation of an element of flat records was given by the caller. -/
theorem get?_of_found (flat : P.Flat) (persisted : (Json.object P.byModel).WellKeyed)
    {model : String} {info : ModelInfo} (hinfo : P.catalog.model model = .ok info)
    {action : NestedAction} {arguments : Json.Object} {field : String}
    (hfield : field ∈ Entries.keys info.relations) {v : Json}
    (h : Entries.get? (P.found model action arguments) field = some v) :
    Entries.get? arguments field = some v := by
  cases action with
  | create => exact (get?_created_relation flat hinfo hfield persisted arguments).symm.trans h
  | connect =>
    rcases get?_connected_relation flat hinfo hfield arguments with same | none
    · exact same.symm.trans h
    · cases none.symm.trans h

/-- **Tidy arguments can be reconciled** with as many chained elements as they have levels,
both those of new elements and those of connected ones. -/
theorem exists_resolve_of_tidy (regular : P.catalog.Regular) (flat : P.Flat)
    (persisted : (Json.object P.byModel).WellKeyed) {levels : Nat} :
    ∀ {depth model arguments}, levels ≤ depth → P.catalog.Tidy levels model arguments →
      ∀ action, ∃ result, P.resolve depth model (P.found model action arguments) = .ok result := by
  induction levels with
  | zero => exact fun _ tidy => tidy.elim
  | succ levels ih =>
    intro depth model arguments enough tidy action
    obtain ⟨-, info, known, branches⟩ := tidy
    obtain ⟨distinct, -⟩ := regular model info known
    obtain ⟨depth, rfl⟩ := Nat.exists_eq_add_of_le' (Nat.le_trans (Nat.le_add_left 1 levels) enough)
    have each : ∀ field related, (field, related) ∈ info.relations →
        ∃ v, P.settled (P.resolve depth) related
          (Entries.get? (P.found model action arguments) field) = .ok v := by
      intro field related hmem
      refine exists_settled fun nested action' w hnested given o ho => ?_
      -- What is supplied was given by the caller, so the compiler went along that branch.
      have hgiven := get?_of_found flat persisted known (List.mem_map_of_mem hmem) hnested
      have branch : (⟨field, action', related⟩, w) ∈ info.branches arguments :=
        ModelInfo.mem_branches_iff.2
          ⟨Entries.get?_of_mem distinct hmem, nested, Entries.mem_of_get? hgiven, given⟩
      obtain ⟨o', ho', tidy⟩ := branches _ w branch _ ho
      cases ho'
      exact ih (Nat.le_of_succ_le_succ enough) tidy action'
    obtain ⟨result, hresult, -⟩ := resolve_settles known distinct each
    exact ⟨result, hresult⟩

/-- Reconciling allows more chained elements than a mutation has levels. -/
theorem maxNesting_lt_depthBound {model : String} {info : ModelInfo}
    (hinfo : P.catalog.model model = .ok info) (arguments : Json.Object) :
    maxNesting + 1 ≤ P.depthBound arguments := by
  have present := List.length_pos_of_mem
    (Entries.mem_of_get? ((Catalog.model_ok_iff _ _ _).1 hinfo))
  have factors := Nat.mul_le_mul (show 4 ≤ 2 * (P.catalog.models.length + 1) by omega)
    (show 2 ≤ Json.sizeEntries arguments + Json.sizeEntries P.byModel + 2 by omega)
  unfold depthBound maxNesting
  omega

end Persisted

namespace Catalog

variable {c : Catalog}

theorem exists_reconcile_of_tidy (regular : c.Regular) {model : String}
    {arguments byModel : Json.Object} (tidy : c.Tidy (maxNesting + 1) model arguments)
    (persisted : (Json.object byModel).WellKeyed) (flat : (Persisted.mk c byModel).Flat) :
    ∃ result, c.reconcile model arguments (.object byModel) = .ok (.object result) := by
  obtain ⟨-, info, known, -⟩ := id tidy
  have enough := Persisted.maxNesting_lt_depthBound (P := ⟨c, byModel⟩) known arguments
  obtain ⟨result, hresult⟩ := Persisted.exists_resolve_of_tidy (P := ⟨c, byModel⟩) regular flat
    persisted enough tidy .create
  refine ⟨result, ?_⟩
  unfold reconcile
  exact congrArg (Except.map Json.object) hresult

/-- A compiled create mutation keeps its name. -/
theorem mutation_of_compile {name : String} {values : Json.Object} {ids : Option IdGenerator}
    {drawn : Nat} {m : CompiledCreate} (h : (c.compile name values ids drawn).1 = .ok (.create m)) :
    m.mutation = name := by
  obtain ⟨info, data, u, -, -, -, ends⟩ := root_of_compile h
  exact (rootCall_of_compileRoot ends).1

/-- **A successful create never fails in shaping.** Flat records in the first column are
shaped into an object whose only key is the name of the mutation; the shape of records is
refused just when there is no object in the first column. -/
theorem shapes_of_compile {d : Schema.Document} (hc : ofDocument d = .ok c) {name : String}
    {values : Json.Object} {ids : Option IdGenerator} {drawn : Nat} {m : CompiledCreate}
    (keyed : (Json.object values).WellKeyed)
    (h : (c.compile name values ids drawn).1 = .ok (.create m)) (records : List Record) :
    (∀ byModel, Plan.firstValue? records = some (.object byModel) →
      (Json.object byModel).WellKeyed → (Persisted.mk c byModel).Flat →
        ∃ result, (Plan.mutation (.create m)).shape c records =
          .ok (.object [(name, .object result)])) ∧
    ((∃ e, (Plan.mutation (.create m)).shape c records = .error e ∧ e.isResultShape) ↔
      Plan.LacksObject records) := by
  refine ⟨fun byModel hfirst persisted flat => ?_, Plan.exists_isResultShape_iff⟩
  obtain ⟨result, hresult⟩ := exists_reconcile_of_tidy (regular_ofDocument hc)
    (tidy_of_compile keyed h) persisted flat
  refine ⟨result, ?_⟩
  rw [Plan.shape_create hfirst, hresult, ← mutation_of_compile h]
  rfl

theorem shapes_of_compile_friends : ∃ m result,
    (friendsCatalog.compile "createPerson" friendsValues (some (.counting "n" none)) 0).1 =
      .ok (.create m) ∧
    (Plan.mutation (.create m)).shape friendsCatalog [[.object friendsRecords]] =
      .ok (.object [("createPerson", .object result)]) := by
  obtain ⟨m, hm⟩ : ∃ m, (friendsCatalog.compile "createPerson" friendsValues
      (some (.counting "n" none)) 0).1 = .ok (.create m) := ⟨_, rfl⟩
  have hc : ofDocument friends = .ok friendsCatalog := rfl
  have shapes := (shapes_of_compile hc (by decide) hm [[.object friendsRecords]]).1
  obtain ⟨result, hresult⟩ := shapes friendsRecords rfl (by decide)
    (Persisted.flat_of_forall (by decide))
  exact ⟨m, result, hm, hresult⟩

end Catalog

end GraphqlCypher
