import GraphqlCypher.Proofs.Mutation.Counterparts

/-! Connected objects in a result.

A connected object is looked up by its first key, whatever else it has: nobody is found by an
address that is out of date, though there is a record with the id behind it. And what is found
takes the whole place of the object, so that the record of a new friend of a friend is nowhere to
be seen, though the friend was created (`not_agreesOnConnects_members`).

**Main result.** `connects_of_compile`: a connected object holds the properties of the record that
its first key finds, and its relations hold what they supply just when it finds none. -/
namespace GraphqlCypher

open Schema Catalog

/-- **Connected objects and their records.** A connected object holds the properties of the record
that its first key finds. Its relations hold what they supply just when that finds none. -/
theorem Persisted.connects_of_compile {P : Persisted} {d : Document} {name : String}
    {values : Json.Object} {ids : Option IdGenerator} {drawn : Nat} {m : CompiledCreate}
    (hc : ofDocument d = .ok P.catalog) (keyed : (Json.object values).WellKeyed)
    (h : (P.catalog.compile name values ids drawn).1 = .ok (.create m))
    (persisted : (Json.object P.byModel).WellKeyed) (flat : P.Flat) :
    ∃ result, P.catalog.reconcile m.model m.arguments (.object P.byModel) = .ok (.object result) ∧
      ∀ v ∈ m.reached P.catalog, actionAt v.address = .connect →
        P.Stays (m.reached P.catalog) v →
        ∃ r, (Json.object m.arguments).counterpart? (.object result) v.place = some (.object r) ∧
          (∀ record, P.FirstKeyFinds v.model v.arguments record →
            ∀ k w, Entries.get? record k = some w → Entries.get? r k = some w) ∧
          ∀ info field related nested, P.catalog.model v.model = .ok info →
            info.related? field = some related →
            Entries.get? v.arguments field = some (.object nested) →
            (∃ a : NestedAction, a.given? nested ≠ none) → ¬ Blends nested →
            ((∃ x, Entries.get? r field = some x ∧ P.Gathers related nested x) ↔
              ∀ record, ¬ P.FirstKeyFinds v.model v.arguments record) := by
  obtain ⟨result, hresult, each⟩ := counterparts_of_compile hc keyed h persisted flat
  refine ⟨result, hresult, fun v hv connected stays => ?_⟩
  obtain ⟨r, hr, reconciles⟩ := each v hv stays
  have itself : ∀ record, P.FirstKeyFinds v.model v.arguments record → r = record := by
    intro record found
    rw [connected] at reconciles
    exact eq_of_firstKeyFinds flat found reconciles
  refine ⟨r, hr, fun record found k w hw => ?_, ?_⟩
  · rw [itself record found]
    exact hw
  · intro info field related nested hinfo hrelated hnested supplied apart
    have hrelation := Entries.mem_of_get? hrelated
    constructor
    · -- a record has no relations
      intro gathered record found
      obtain ⟨x, hx, -⟩ := gathered
      have absent := get?_record_relation flat hinfo (List.mem_map_of_mem hrelation)
        (connected_of_firstKeyFinds found).2
      rw [itself record found, absent] at hx
      cases hx
    · intro none
      have kept : ¬ P.Replaced v := fun h => h.2.elim none
      exact exists_gathers (regular_ofDocument hc) flat persisted hinfo reconciles kept hrelation
        hnested supplied apart

/-- Somebody with a friend who is known already. -/
def friendOf (friend : Json.Object) : Json.Object :=
  [("id", .string "a"), ("friends", .object [("connect", .object friend)])]

/-- Where the friend is connected. -/
def friendAddress : List Pick := [⟨⟨"friends", .connect, "Person"⟩, 0⟩]

theorem Persisted.connects_of_compile_friends : ∃ m result,
    (friendsCatalog.compile "createPerson" [("data", .object (friendOf [("id", .string "b")]))]
      none 0).1 = .ok (.create m) ∧
    friendsCatalog.reconcile m.model m.arguments (.object friendsRecords) = .ok (.object result) ∧
    ∃ r, (Json.object m.arguments).counterpart? (.object result) (friendAddress.map Pick.place) =
        some (.object r) ∧ Entries.get? r "name" = some (.string "Bo") := by
  let friend : Visit := ⟨friendAddress, "Person", [("id", .string "b")]⟩
  obtain ⟨m, hm, reached⟩ : ∃ m, (friendsCatalog.compile "createPerson"
      [("data", .object (friendOf [("id", .string "b")]))] none 0).1 = .ok (.create m) ∧
      m.reached friendsCatalog = [⟨[], "Person", friendOf [("id", .string "b")]⟩, friend] :=
    ⟨_, rfl, rfl⟩
  have hc : ofDocument friends = .ok friendsCatalog := rfl
  obtain ⟨result, hresult, each⟩ := connects_of_compile (P := ⟨friendsCatalog, friendsRecords⟩) hc
    (by decide) hm (by decide) (flat_of_forall (by decide))
  have visited : friend ∈ m.reached friendsCatalog := by
    rw [reached]
    exact .tail _ (.head _)
  have stays : (Persisted.mk friendsCatalog friendsRecords).Stays (m.reached friendsCatalog)
      friend := by
    intro owner howner p rest e
    rw [reached] at howner
    rcases List.mem_cons.1 howner with rfl | howner
    · obtain ⟨rfl, rfl⟩ := List.cons.inj e
      refine ⟨fun h => absurd h.1 nofun, fun nested hnested blends => ?_⟩
      cases hnested
      obtain ⟨_, _, creates, -⟩ := blends
      cases creates
    · obtain rfl := List.mem_singleton.1 howner
      have short := congrArg List.length e
      simp at short
  have found : (Persisted.mk friendsCatalog friendsRecords).FirstKeyFinds "Person"
      [("id", .string "b")] [("id", .string "b"), ("name", .string "Bo")] := by
    have unique : Names.id ∈ ["id"] := by decide
    exact ⟨_, _, _, _, rfl, rfl, unique, (find?_eq_some_iff rfl unique).1 rfl⟩
  obtain ⟨r, hr, holds, -⟩ := each friend visited rfl stays
  exact ⟨m, result, hm, hresult, r, hr, holds _ found "name" _ rfl⟩

/-! ### Members with two unique fields -/

/-- Members who are known by their ids and their addresses. -/
def members : Document :=
  [.type (.object {
    name := "Member"
    directives := [Directive.bare Names.model]
    fields := [
      { name := "id", type := .nonNull (.named "ID"), directives := [Directive.bare Names.unique] },
      { name := "email", type := .named "String", directives := [Directive.bare Names.unique] },
      { name := "peers", type := .list (.named "Member")
        directives :=
          [⟨Names.relation, [("name", .string "KNOWS"), ("direction", .enum "OUT")]⟩] }] }),
   .type (.object {
    name := Names.mutation
    fields := [
      { name := "createMember", type := .named "Member"
        directives := [Directive.bare Names.binding] }] })]

/-- A new member with two peers who are known already: one by an address that is out of date and
the id, and one by the id alone, who has a new peer in turn. -/
def memberWithPeers : Json.Object :=
  [("data", .object [
    ("id", .string "a"),
    ("peers", .object [("connect", .array [
      .object [("email", .string "b@old"), ("id", .string "b")],
      .object [
        ("id", .string "b"),
        ("peers", .object [("create", .array [.object [("id", .string "c")]])])]])])])]

/-- A member as it was read back. -/
def memberRecord : Json.Object := [("id", .string "b"), ("email", .string "b@new")]

/-- What was read back: the known member and the new ones. -/
def memberRecords : Json.Object :=
  [("Member", .array [
    .object [("id", .string "a")], .object memberRecord, .object [("id", .string "c")]])]

namespace CompiledCreate

/-- Connected objects hold the properties of the records that any of their keys finds. -/
def HoldsRecords (c : Catalog) (m : CompiledCreate) (byModel result : Json.Object) : Prop :=
  ∀ v ∈ m.reached c, actionAt v.address = .connect →
    ∀ info k x record, c.model v.model = .ok info → k ∈ info.unique →
      Entries.get? v.arguments k = some x → (Persisted.mk c byModel).IsLast v.model k x record →
      ∃ r, (Json.object m.arguments).counterpart? (.object result) v.place = some (.object r) ∧
        ∀ k w, Entries.get? record k = some w → Entries.get? r k = some w

/-- The relations of connected objects hold what they supply. -/
def HoldsRelations (c : Catalog) (m : CompiledCreate) (byModel result : Json.Object) : Prop :=
  ∀ v ∈ m.reached c, actionAt v.address = .connect →
    ∀ info field related nested, c.model v.model = .ok info → info.related? field = some related →
      Entries.get? v.arguments field = some (.object nested) →
      (∃ a : NestedAction, a.given? nested ≠ none) →
      ∃ r x, (Json.object m.arguments).counterpart? (.object result) v.place = some (.object r) ∧
        Entries.get? r field = some x ∧ (Persisted.mk c byModel).Gathers related nested x

end CompiledCreate

/-- **Neither holds.** An address that is out of date hides the record that the id finds. And
behind a peer who is found, the new one cannot be seen: statements were made for it, it was
created and read back, and yet the result has no peers there. -/
theorem not_agreesOnConnects_members : ∃ c m result, ofDocument members = .ok c ∧
    (Persisted.mk c memberRecords).Flat ∧
    (c.compile "createMember" memberWithPeers none 0).1 = .ok (.create m) ∧
    (∃ g ∈ m.groups, g.path = [⟨"peers", .connect, "Member"⟩, ⟨"peers", .create, "Member"⟩]) ∧
    c.reconcile m.model m.arguments (.object memberRecords) = .ok (.object result) ∧
    ¬ m.HoldsRecords c memberRecords result ∧ ¬ m.HoldsRelations c memberRecords result := by
  refine ⟨_, _, _, rfl, Persisted.flat_of_forall (by decide), rfl, ⟨_, .tail _ (.head _), rfl⟩, rfl,
    fun records => ?_, fun relations => ?_⟩
  · obtain ⟨r, hr, holds⟩ := records _ (.tail _ (.head _)) rfl _ "id" (.string "b") memberRecord rfl
      (by decide) rfl ⟨"b", [[("id", .string "a")]], [[("id", .string "c")]], rfl, rfl, rfl,
        by decide⟩
    cases hr
    have email : some (Json.string "b@old") = some (.string "b@new") := holds "email" _ rfl
    exact absurd (Json.string.inj (Option.some.inj email)) (by decide)
  · obtain ⟨r, x, hr, hx, -⟩ := relations _ (.tail _ (.tail _ (.head _))) rfl _ "peers" "Member" _
      rfl rfl rfl ⟨.create, nofun⟩
    cases hr
    cases hx

end GraphqlCypher
