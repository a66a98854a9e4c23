import GraphqlCypher.Proofs.Mutation.Counterparts

/-! Relations that create and connect.

Of a relation that does both, a result shows the created elements first and the connected ones
behind them. That takes a list to begin with: a single new element is laid under a single
known one, and a list of known ones is lost (`not_losesNothing_friends`).

**Main result.** `joins_of_compile`: a relation that creates a list and connects others holds
all of them in the result, if its object is in the result at all. -/
namespace GraphqlCypher

open Schema Catalog

namespace Persisted

variable {P : Persisted}

/-- A relation of a visited object holds what it creates and then what it connects. -/
def HoldsBoth (P : Persisted) (arguments result : Json) (v : Visit) (field related : String)
    (creates connects : Json) : Prop :=
  ∃ r created connected, arguments.counterpart? result v.place = some (.object r) ∧
    Entries.get? r field = some (.array (created ++ connected)) ∧
    List.Forall₂ (ElementBecomes (P.Reconciles related .create)) creates.elements created ∧
    List.Forall₂ (ElementBecomes (P.Reconciles related .connect)) connects.elements connected ∧
    (created ++ connected).length = creates.elements.length + connects.elements.length

/-- A relation that creates a list and connects others gathers both. -/
theorem Gathers.of_both {related : String} {nested : Json.Object} {items : List Json}
    {connects x : Json} (h : P.Gathers related nested x)
    (hcreates : NestedAction.create.given? nested = some (.array items))
    (hconnects : NestedAction.connect.given? nested = some connects) :
    ∃ created connected, x = .array (created ++ connected) ∧
      List.Forall₂ (ElementBecomes (P.Reconciles related .create)) items created ∧
        List.Forall₂ (ElementBecomes (P.Reconciles related .connect)) connects.elements
          connected := by
  cases h with
  | @alone action _ _ given others _ =>
    cases action with
    | create => cases (others .connect (by simp)).symm.trans hconnects
    | connect => cases (others .create (by simp)).symm.trans hcreates
  | both creates connects created connected =>
    cases hcreates.symm.trans creates
    cases hconnects.symm.trans connects
    exact ⟨_, _, rfl, created, connected.elements⟩

/-- **Created and connected elements stand together.** If a relation of an object creates a
list and connects others, the result holds all of them, the created ones first. -/
theorem joins_of_compile {d : Document} {name : String} {values : Json.Object}
    {ids : Option IdGenerator} {drawn : Nat} {m : CompiledCreate}
    (hc : ofDocument d = .ok P.catalog) (keyed : (Json.object values).WellKeyed)
    (h : (P.catalog.compile name values ids drawn).1 = .ok (.create m))
    (persisted : (Json.object P.byModel).WellKeyed) (flat : P.Flat) :
    ∃ result, P.catalog.reconcile m.model m.arguments (.object P.byModel) = .ok (.object result) ∧
      ∀ v ∈ m.reached P.catalog, P.Stays (m.reached P.catalog) v → ¬ P.Replaced v →
        ∀ info field related nested items connects, P.catalog.model v.model = .ok info →
          info.related? field = some related →
          Entries.get? v.arguments field = some (.object nested) →
          NestedAction.create.given? nested = some (.array items) →
          NestedAction.connect.given? nested = some connects →
          P.HoldsBoth (.object m.arguments) (.object result) v field related (.array items)
            connects := by
  obtain ⟨result, hresult, each⟩ := counterparts_of_compile hc keyed h persisted flat
  refine ⟨result, hresult, fun v hv stays kept => ?_⟩
  intro info field related nested items connects hinfo hrelated hnested creates hconnects
  obtain ⟨r, hr, reconciles⟩ := each v hv stays
  have apart : ¬ Blends nested := by
    rintro ⟨v, w, hv, -, single⟩
    cases creates.symm.trans hv
    exact single items rfl
  obtain ⟨x, hx, gathers⟩ := exists_gathers (regular_ofDocument hc) flat persisted hinfo
    reconciles kept (Entries.mem_of_get? hrelated) hnested ⟨.create, by simp [creates]⟩ apart
  obtain ⟨created, connected, rfl, hcreated, hconnected⟩ := gathers.of_both creates hconnects
  refine ⟨r, created, connected, hr, hx, hcreated, hconnected, ?_⟩
  rw [List.length_append, ← hcreated.length_eq, ← hconnected.length_eq]
  rfl

end Persisted

/-! ### New friends and known ones -/

/-- Somebody with friends, some of whom are new and some of whom are known already. -/
def friendsOf (creates connects : Json) : Json.Object :=
  [("id", .string "a"), ("friends", .object [("create", creates), ("connect", connects)])]

/-- Bob, by his id. -/
def bob : Json := .object [("id", .string "b")]

theorem Persisted.joins_of_compile_friends : ∃ m result,
    (friendsCatalog.compile "createPerson" [("data", .object (friendsOf (.array [bob]) bob))]
      none 0).1 = .ok (.create m) ∧
    friendsCatalog.reconcile m.model m.arguments (.object friendsRecords) = .ok (.object result) ∧
    (Persisted.mk friendsCatalog friendsRecords).HoldsBoth (.object m.arguments) (.object result)
      ⟨[], "Person", m.arguments⟩ "friends" "Person" (.array [bob]) bob := by
  obtain ⟨m, hm, model, arguments⟩ : ∃ m, (friendsCatalog.compile "createPerson"
      [("data", .object (friendsOf (.array [bob]) bob))] none 0).1 = .ok (.create m) ∧
      m.model = "Person" ∧ m.arguments = friendsOf (.array [bob]) bob := ⟨_, rfl, rfl, rfl⟩
  have hc : ofDocument friends = .ok friendsCatalog := rfl
  obtain ⟨result, hresult, each⟩ := joins_of_compile (P := ⟨friendsCatalog, friendsRecords⟩) hc
    (by decide) hm (by decide) (flat_of_forall (by decide))
  have root : ⟨[], "Person", m.arguments⟩ ∈ m.reached friendsCatalog := by
    rw [CompiledCreate.reached, model, arguments]
    exact List.mem_cons_self
  refine ⟨m, result, hm, hresult, each _ root (fun owner _ p rest e => ?_) (fun h => ?_) _ "friends"
    "Person" _ _ _ rfl rfl (by rw [arguments]; rfl) rfl rfl⟩
  · exact absurd e.symm (by simp)
  · exact absurd h.1 nofun

/-- The result holds what every relation creates and then what it connects. -/
def CompiledCreate.LosesNothing (c : Catalog) (m : CompiledCreate)
    (byModel result : Json.Object) : Prop :=
  ∀ v ∈ m.reached c, ∀ info field related nested creates connects,
    c.model v.model = .ok info → info.related? field = some related →
    Entries.get? v.arguments field = some (.object nested) →
    NestedAction.create.given? nested = some creates →
    NestedAction.connect.given? nested = some connects →
    (Persisted.mk c byModel).HoldsBoth (.object m.arguments) (.object result) v field related
      creates connects

/-- A single new friend is laid under a known one, and a list of known ones is lost. -/
theorem not_losesNothing_friends : ofDocument friends = .ok friendsCatalog ∧
    (Persisted.mk friendsCatalog friendsRecords).Flat ∧
    ∀ connects ∈ [bob, .array [bob]], ∃ m result,
      (friendsCatalog.compile "createPerson" [("data", .object (friendsOf bob connects))]
        none 0).1 = .ok (.create m) ∧
      friendsCatalog.reconcile m.model m.arguments (.object friendsRecords) =
        .ok (.object result) ∧
      ¬ m.LosesNothing friendsCatalog friendsRecords result := by
  refine ⟨rfl, Persisted.flat_of_forall (by decide), ?_⟩
  simp only [List.forall_mem_cons, List.not_mem_nil, false_implies, implies_true, and_true]
  constructor
  all_goals
    refine ⟨_, _, rfl, rfl, fun h => ?_⟩
    obtain ⟨r, created, connected, hr, hfriends, -⟩ :=
      h _ List.mem_cons_self _ "friends" "Person" _ _ _ rfl rfl rfl rfl rfl
    cases hr
    cases hfriends

end GraphqlCypher
