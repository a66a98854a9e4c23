import GraphqlCypher.Proofs.Mutation.Compiled
import GraphqlCypher.Proofs.Mutation.Lookup

/-! What a tree of creates is reconciled to.

`Persisted.Mirrors` says it without a word about look-ups, folds or bounds: the result has
the shape of the arguments, lists have their elements in the same order, and an element
holds all entries of the last record with its id, besides what the caller gave.

**Main result.** `reconcile_mirrors`: arguments that supply nothing but creates are
reconciled to their mirror, whatever the records are, as long as they are flat. The
induction is on the number of chained elements that are allowed; each element is smaller than
its owner, and `Persisted.depthBound` is more than the size of the arguments. -/
namespace GraphqlCypher

open Schema

/-! ### Sizes -/

namespace Json

theorem size_le_sizeEntries {entries : Object} {k : String} {v : Json} (h : (k, v) ∈ entries) :
    v.size ≤ sizeEntries entries := by
  induction entries with
  | nil => cases h
  | cons e rest ih =>
    obtain ⟨k', v'⟩ := e
    rw [sizeEntries]
    rcases List.mem_cons.1 h with h | h
    · cases h
      omega
    · have := ih h
      omega

theorem size_le_of_mem_elements {v e : Json} (h : e ∈ v.elements) : e.size ≤ v.size := by
  cases v with
  | array items =>
    change e ∈ items at h
    rw [size]
    induction items with
    | nil => cases h
    | cons item rest ih =>
      rw [sizeItems]
      rcases List.mem_cons.1 h with h | h
      · cases h
        omega
      · have := ih h
        omega
  | _ => exact Nat.le_of_eq (congrArg Json.size (List.mem_singleton.1 h))

end Json

/-- What a relation supplies is smaller than the element that has it. -/
theorem NestedAction.sizeEntries_lt {arguments nested o : Json.Object} {field : String}
    {action : NestedAction} {v : Json} (hfield : Entries.get? arguments field = some (.object nested))
    (given : action.given? nested = some v) (ho : .object o ∈ v.elements) :
    Json.sizeEntries o < Json.sizeEntries arguments := by
  have element := Json.size_le_of_mem_elements ho
  have supply := Json.size_le_sizeEntries (Entries.mem_of_get? (given?_eq_some.1 given).1)
  have relation := Json.size_le_sizeEntries (Entries.mem_of_get? hfield)
  rw [Json.size] at element relation
  omega

/-! ### Trees and their mirrors -/

/-- Arguments of known models whose relations supply nothing but creates, down to the last
element. -/
inductive Catalog.OnlyCreates (c : Catalog) : String → Json.Object → Prop where
  | intro {model : String} {arguments : Json.Object} {info : ModelInfo}
      (known : c.model model = .ok info)
      (connects : ∀ field related nested, (field, related) ∈ info.relations →
        Entries.get? arguments field = some (.object nested) →
        NestedAction.connect.given? nested = none)
      (creates : ∀ field related nested v o, (field, related) ∈ info.relations →
        Entries.get? arguments field = some (.object nested) →
        NestedAction.create.given? nested = some v → .object o ∈ v.elements →
        OnlyCreates c related o) :
      OnlyCreates c model arguments

/-- Whether what is supplied is objects that pass, or no objects. -/
def Json.allObjects (p : Json.Object → Bool) (v : Json) : Bool :=
  v.elements.all fun e => (e.asObject?.map p).getD true

/-- Whether arguments supply nothing but creates, within so many levels. -/
def Catalog.onlyCreatesWithin (c : Catalog) : Nat → String → Json.Object → Bool
  | 0, _, _ => false
  | levels + 1, model, arguments =>
    match Entries.get? c.models model with
    | none => false
    | some info => info.relations.all fun (field, related) =>
        match Entries.get? arguments field with
        | some (.object nested) =>
          (NestedAction.connect.given? nested).isNone &&
            ((NestedAction.create.given? nested).map
              (Json.allObjects (c.onlyCreatesWithin levels related))).getD true
        | _ => true

theorem Catalog.onlyCreates_of_within {c : Catalog} (levels : Nat) {model : String}
    {arguments : Json.Object} (h : c.onlyCreatesWithin levels model arguments) :
    c.OnlyCreates model arguments := by
  induction levels generalizing model arguments with
  | zero => cases h
  | succ levels ih =>
    unfold onlyCreatesWithin at h
    split at h
    · cases h
    · next info hinfo =>
      have relation : ∀ field related nested, (field, related) ∈ info.relations →
          Entries.get? arguments field = some (.object nested) →
          NestedAction.connect.given? nested = none ∧
            ∀ v, NestedAction.create.given? nested = some v →
              v.allObjects (c.onlyCreatesWithin levels related) := by
        intro field related nested hmem hnested
        have passed := List.all_eq_true.1 h _ hmem
        simp only [hnested, Bool.and_eq_true, Option.isNone_iff_eq_none] at passed
        exact ⟨passed.1, fun v hv => by simpa [hv] using passed.2⟩
      refine .intro ((model_ok_iff _ _ _).2 hinfo) ?_ ?_
      · exact fun field related nested hmem hnested => (relation field related nested hmem hnested).1
      · intro field related nested v o hmem hnested hv ho
        exact ih (List.all_eq_true.1 ((relation field related nested hmem hnested).2 v hv) _ ho)

namespace Persisted

/-- What stands at a relation: what is created under it, or what was there. An object that
supplies nothing loses the keys that could supply something. -/
inductive RelationMirrors (R : Json.Object → Json.Object → Prop) :
    Option Json → Option Json → Prop where
  | created {nested : Json.Object} {v w : Json}
      (given : NestedAction.create.given? nested = some v) (supply : SupplyBecomes R v w) :
      RelationMirrors R (some (.object nested)) (some w)
  | unsupplied {nested : Json.Object} (given : NestedAction.create.given? nested = none) :
      RelationMirrors R (some (.object nested))
        (some (.object (unsupplied nested)))
  | other {v : Option Json} (h : ∀ nested, v ≠ some (.object nested)) : RelationMirrors R v v

/-- A record is the last one of a model with the id of an element. -/
def IsRecordOf (P : Persisted) (model : String) (arguments record : Json.Object) : Prop :=
  ∃ id, Entries.get? arguments Names.id = some id ∧ P.IsLast model Names.id id record

/-- One element and its mirror, given what it is to be a mirror below. -/
structure MirrorsOnce (P : Persisted) (below : String → Json.Object → Json.Object → Prop)
    (model : String) (info : ModelInfo) (arguments result : Json.Object) : Prop where
  distinct : (Entries.keys result).Nodup
  /-- Every entry of the record is there. -/
  recorded : ∀ record, P.IsRecordOf model arguments record → ∀ k v,
    Entries.get? record k = some v → Entries.get? result k = some v
  /-- What no record says is as the caller gave it. -/
  kept : ∀ k, k ∉ Entries.keys info.relations →
    (∀ record, P.IsRecordOf model arguments record → Entries.get? record k = none) →
    Entries.get? result k = Entries.get? arguments k
  /-- Relations hold what was created under them. -/
  relations : ∀ field related, (field, related) ∈ info.relations →
    RelationMirrors (below related) (Entries.get? arguments field) (Entries.get? result field)

/-- An element of a known model and its mirror, with so many levels at most. -/
def MirrorsWithin (P : Persisted) : Nat → String → Json.Object → Json.Object → Prop
  | 0, _, _, _ => False
  | levels + 1, model, arguments, result => ∃ info, P.catalog.model model = .ok info ∧
      P.MirrorsOnce (P.MirrorsWithin levels) model info arguments result

/-- A result mirrors arguments down to the last element. -/
def Mirrors (P : Persisted) (model : String) (arguments result : Json.Object) : Prop :=
  ∃ levels, P.MirrorsWithin levels model arguments result

variable {P : Persisted} {model : String} {info : ModelInfo} {resolve : Resolver}

theorem recordOf?_eq_some_iff (hinfo : P.catalog.model model = .ok info)
    (hid : Names.id ∈ info.unique) {arguments record : Json.Object} :
    P.recordOf? model arguments = some record ↔ P.IsRecordOf model arguments record := by
  unfold recordOf? IsRecordOf
  rw [Option.bind_eq_some_iff]
  exact exists_congr fun id => and_congr_right fun _ => find?_eq_some_iff hinfo hid

/-- A relation that supplies nothing but creates is settled as its mirror. -/
theorem exists_settled_mirror {R : Json.Object → Json.Object → Prop} {related : String}
    {v : Option Json}
    (connects : ∀ nested, v = some (.object nested) → NestedAction.connect.given? nested = none)
    (creates : ∀ nested w o, v = some (.object nested) →
      NestedAction.create.given? nested = some w → .object o ∈ w.elements →
        ∃ r, resolve related (P.created related o) = .ok r ∧ R o r) :
    ∃ w, P.settled resolve related v = .ok w ∧ RelationMirrors R v w := by
  unfold settled
  split
  · next nested =>
    obtain ⟨created, hcreated, supply⟩ := exists_elements fun w hw o ho =>
      creates nested w o rfl hw ho
    obtain ⟨connected, hconnected, nothing⟩ : ∃ w, P.elements resolve related .connect nested =
        .ok w ∧ Option.Rel (SupplyBecomes R) (NestedAction.connect.given? nested) w :=
      exists_elements fun w hw => by
        rw [connects nested rfl] at hw
        cases hw
    rw [connects nested rfl] at nothing
    cases nothing
    rw [hcreated, hconnected]
    refine ⟨_, rfl, ?_⟩
    cases hgiven : NestedAction.create.given? nested with
    | none =>
      rw [hgiven] at supply
      cases supply
      exact .unsupplied hgiven
    | some w =>
      rw [hgiven] at supply
      cases supply with
      | some supply => exact .created hgiven supply
  · next hother => exact ⟨v, rfl, .other fun nested h => hother nested h⟩

/-- **A tree of creates is reconciled to its mirror**, if so many chained elements are
allowed as it has values. -/
theorem exists_resolve_mirror (regular : P.catalog.Regular) (flat : P.Flat)
    (persisted : (Json.object P.byModel).WellKeyed) (depth : Nat) :
    ∀ model arguments, Json.sizeEntries arguments < depth →
      (Json.object arguments).WellKeyed → P.catalog.OnlyCreates model arguments →
      ∃ result, P.resolve depth model (P.created model arguments) = .ok result ∧
        P.MirrorsWithin depth model arguments result := by
  induction depth with
  | zero => exact fun _ _ small => absurd small (Nat.not_lt_zero _)
  | succ depth ih =>
    intro model arguments small keyed tree
    obtain @⟨_, _, info, known, connects, creates⟩ := tree
    obtain ⟨distinct, hid⟩ := regular model info known
    -- What is created under a relation is smaller, so that it can be reconciled.
    have each : ∀ field related, (field, related) ∈ info.relations →
        ∃ v, P.settled (P.resolve depth) related
            (Entries.get? (P.created model arguments) field) = .ok v ∧
          RelationMirrors (P.MirrorsWithin depth related) (Entries.get? arguments field) v := by
      intro field related hmem
      rw [get?_created_relation flat known (List.mem_map_of_mem hmem) persisted]
      refine exists_settled_mirror (fun nested => connects field related nested hmem) ?_
      intro nested w o hnested given ho
      have smaller := NestedAction.sizeEntries_lt hnested given ho
      have supplied := (keyed.of_get? hnested).of_get? (NestedAction.given?_eq_some.1 given).1
      exact ih related o (by omega) (supplied.of_mem_elements ho)
        (creates field related nested w o hmem hnested given ho)
    obtain ⟨result, hresult, settles⟩ := resolve_settles known distinct fun field related hmem =>
      (each field related hmem).imp fun v hv => hv.1
    refine ⟨result, hresult, info, known, ?_, ?_, ?_, ?_⟩
    · rw [settles.keys]
      exact nodup_keys_created keyed.nodup_keys
    · intro record hrecord k v hv
      have hfound := (recordOf?_eq_some_iff known hid).2 hrecord
      have outside : k ∉ Entries.keys info.relations := fun hk => by
        have absent := get?_record_relation flat known hk (mem_records_of_recordOf? hfound)
        rw [hv] at absent
        cases absent
      rw [settles.others k outside, get?_created persisted, hfound, Option.bind_some, hv]
      rfl
    · intro k outside unsaid
      rw [settles.others k outside, get?_created persisted]
      cases hfound : P.recordOf? model arguments with
      | none => rfl
      | some record =>
        rw [Option.bind_some, unsaid record ((recordOf?_eq_some_iff known hid).1 hfound),
          Option.none_or]
    · intro field related hmem
      obtain ⟨v, hv, mirror⟩ := each field related hmem
      have same := (settles.settled field related hmem).symm.trans hv
      rwa [Except.ok.inj same]

theorem lt_depthBound (P : Persisted) (arguments : Json.Object) :
    Json.sizeEntries arguments < P.depthBound arguments := by
  unfold depthBound
  have factor : 1 ≤ 2 * (P.catalog.models.length + 1) := by omega
  have product := Nat.mul_le_mul_right
    (Json.sizeEntries arguments + Json.sizeEntries P.byModel + 2) factor
  omega

end Persisted

/-- **Reconciled creates mirror the argument tree.** For the catalog of any document, a tree
of creates and flat records, reconciling returns the mirror of the tree. -/
theorem Catalog.reconcile_mirrors {d : Document} {c : Catalog} (hc : ofDocument d = .ok c)
    {model : String} {arguments byModel : Json.Object}
    (keyed : (Json.object arguments).WellKeyed) (persisted : (Json.object byModel).WellKeyed)
    (flat : (Persisted.mk c byModel).Flat) (tree : c.OnlyCreates model arguments) :
    ∃ result, c.reconcile model arguments (.object byModel) = .ok (.object result) ∧
      (Persisted.mk c byModel).Mirrors model arguments result := by
  obtain ⟨result, hresult, mirrors⟩ := Persisted.exists_resolve_mirror (P := ⟨c, byModel⟩)
    (regular_ofDocument hc) flat persisted _ model arguments (Persisted.lt_depthBound _ _)
    keyed tree
  refine ⟨result, ?_, _, mirrors⟩
  unfold reconcile
  dsimp only
  rw [hresult]
  rfl

/-! ### Friends who are created -/

/-- Somebody with two new friends, one of whom has a new friend. -/
def friendsTree : Json.Object :=
  [("id", .string "a"), ("friends", .object [("create", .array [
    .object [("id", .string "b"), ("name", .string "Bob")],
    .object [("name", .string "Cy"),
      ("friends", .object [("create", .object [("id", .string "d")])])]])])]

example : friendsCatalog.reconcile "Person" friendsTree (.object friendsRecords) =
    .ok (.object [("id", .string "a"), ("friends", .array [
      .object [("id", .string "b"), ("name", .string "Bo")],
      .object [("name", .string "Cy"), ("friends", .object [("id", .string "d")])]]),
      ("name", .string "Ada")]) := rfl

theorem Catalog.reconcile_mirrors_friends : ∃ result,
    friendsCatalog.reconcile "Person" friendsTree (.object friendsRecords) = .ok (.object result) ∧
      (Persisted.mk friendsCatalog friendsRecords).Mirrors "Person" friendsTree result :=
  reconcile_mirrors (d := friends) rfl (by decide) (by decide)
    (Persisted.flat_of_forall (by decide)) (onlyCreates_of_within 3 (by decide))

end GraphqlCypher
