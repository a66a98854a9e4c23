import GraphqlCypher.Proofs.Mutation.ReadBack

/-! Which nodes a record selects.

The condition of a lookup joins one group of tests for each unique field, and each group is true
as well if the record has nothing for its field. So the nodes that a record selects are those
that agree with it in a field that it has, as long as it has all of them
(`Catalog.selects_of_compile`). A record that lacks one selects every node
(`Catalog.not_selectsAgreeing_frank`), and then its whole label is read back
(`ReadBack.matches_of_lacks`). -/
namespace GraphqlCypher

open Cypher

namespace ReadBack

/-- A node has the value of some unique field that the record has. -/
def Identifies (D : Database) (keys : List String) (record : Json) (n : Node) : Prop :=
  ∃ k ∈ keys, (record.get? k).getD .null ≠ .null ∧
    D.equal (((Json.object n.properties).get? k).getD .null) ((record.get? k).getD .null) =
      some true

/-- A record has no value for some unique field. -/
def Lacks (keys : List String) (record : Json) : Prop :=
  ∃ k ∈ keys, (record.get? k).getD .null = .null

variable {D : Database} {keys : List String} {record : Json} {n : Node}

theorem agrees_iff : Agrees D keys record n ↔ Identifies D keys record n ∨ Lacks keys record := by
  constructor
  · rintro ⟨k, hk, hagrees⟩
    by_cases hnull : (record.get? k).getD .null = .null
    · exact .inr ⟨k, hk, hnull⟩
    · exact .inl ⟨k, hk, hnull, hagrees.resolve_right hnull⟩
  · rintro (⟨k, hk, -, hequal⟩ | ⟨k, hk, hnull⟩)
    · exact ⟨k, hk, .inl hequal⟩
    · exact ⟨k, hk, .inr hnull⟩

/-- One record without a value for some unique field has every node of its model read back. -/
theorem matches_of_lacks {model : String} {records : List Json} (hrecord : record ∈ records)
    (hlacks : Lacks keys record) (hn : n ∈ D.nodes) (hlabel : model ∈ n.labels) :
    Matches D model keys records n :=
  ⟨hn, hlabel, record, hrecord, agrees_iff.2 (.inr hlacks)⟩

/-- Every model that is read back has its lookup in the text. -/
theorem exists_mem_lookups {model : String} {r : ReadBack} (h : (model, keys) ∈ r) :
    ∀ earlier, ∃ before, lookup before model keys ∈ lookups earlier r := by
  induction r with
  | nil => cases h
  | cons e rest ih =>
    intro earlier
    rcases List.mem_cons.1 h with rfl | h
    · exact ⟨earlier, List.mem_cons_self⟩
    · obtain ⟨before, hmem⟩ := ih h (earlier ++ [e.1])
      exact ⟨before, List.mem_cons_of_mem _ hmem⟩

end ReadBack

namespace Catalog

variable {c : Catalog} {name : String} {values : Json.Object} {ids : Option IdGenerator}
  {drawn : Nat} {m : CompiledCreate}

/-- The staged records of a model are those of the objects of the model that were visited. -/
theorem exists_visit_of_staged (h : (c.compile name values ids drawn).1 = .ok (.create m))
    {model : String} {info : ModelInfo} (hinfo : c.model model = .ok info) {records : List Json}
    (hstaged : (model, records) ∈ m.staged) {record : Json} (hrecord : record ∈ records) :
    ∃ v ∈ m.visits, v.model = model ∧ record = stagedRecord info.unique v.arguments := by
  obtain ⟨-, -, -, -, t, -, -, -, -, -, -, -, hvisits, hrecords⟩ := run_of_compile h
  have hkeys : (Entries.keys m.staged).Nodup := (readBack_of_compile h).2.1
  have hlist := Entries.get?_of_mem hkeys hstaged
  rw [hrecords] at hlist
  have hall := get?_stagedRecords c t.visits model
  rw [hlist, Option.getD_some] at hall
  rw [hall] at hrecord
  obtain ⟨v, hv, rfl⟩ := List.mem_map.1 hrecord
  obtain ⟨hv, hmodel⟩ := List.mem_filter.1 hv
  have hmodel : v.model = model := beq_iff_eq.1 hmodel
  refine ⟨v, hvisits ▸ hv, hmodel, ?_⟩
  rw [Visit.record, hmodel, (model_ok_iff _ _ _).1 hinfo]
  rfl

/-- **What a lookup finds.** The statement looks up every model that has staged records, each of
which has the unique fields of an object that was visited. In a row with a record and a node, the
condition of the lookup is true just when the node has the value of some unique field that the
record has, or the record lacks one. -/
theorem selects_of_compile (h : (c.compile name values ids drawn).1 = .ok (.create m))
    {model : String} {records : List Json} (hstaged : (model, records) ∈ m.staged) :
    ∃ info before, c.model model = .ok info ∧
      ReadBack.lookup before model info.unique ∈ ReadBack.lookups [] m.readBack ∧
      ReadBack.condition model info.unique = (ReadBack.agreement model info.unique).text ∧
      ∀ record ∈ records,
        (∃ v ∈ m.visits, v.model = model ∧ record = stagedRecord info.unique v.arguments) ∧
        ∀ (D : Database) (n : Node) (row : Bindings),
          Entries.get? row (ReadBack.record model) = some (.value record) →
          Entries.get? row (ReadBack.node model) = some (.node n) →
          ((ReadBack.agreement model info.unique).eval D row = some true ↔
            ReadBack.Identifies D info.unique record n ∨ ReadBack.Lacks info.unique record) := by
  obtain ⟨hread, -⟩ := readBack_of_compile h
  obtain ⟨hlookups, hknown⟩ := readBackOf_ok hread
  obtain ⟨info, hinfo, hlookup⟩ := hknown _ hstaged
  have hmem : (model, info.unique) ∈ m.readBack := by
    rw [hlookups, ← hlookup]
    exact List.mem_map_of_mem hstaged
  obtain ⟨before, hbefore⟩ := ReadBack.exists_mem_lookups hmem []
  refine ⟨info, before, hinfo, hbefore, (ReadBack.text_agreement model info.unique).symm, ?_⟩
  intro record hrecord
  refine ⟨exists_visit_of_staged h hinfo hstaged hrecord, fun D n row hbound hnode => ?_⟩
  rw [ReadBack.eval_agreement_of_get? hbound hnode, ReadBack.agrees_iff]

/-- Somebody without friends selects herself. -/
theorem selects_of_compile_friends :
    ∃ m, (friendsCatalog.compile "createPerson" lonely none 0).1 = .ok (.create m) ∧
      ("Person", [byId "a"]) ∈ m.staged ∧ byId "a" ∈ [byId "a"] ∧
      (ReadBack.agreement "Person" ["id"]).eval (shelf [ada])
        [("_Person", .value (byId "a")), ("PersonNode", .node ada)] = some true := by
  obtain ⟨m, hm, hstaged⟩ : ∃ m,
      (friendsCatalog.compile "createPerson" lonely none 0).1 = .ok (.create m) ∧
      m.staged = [("Person", [byId "a"])] := ⟨_, rfl, rfl⟩
  have hmem : ("Person", [byId "a"]) ∈ m.staged := hstaged ▸ List.mem_singleton_self _
  obtain ⟨info, -, hinfo, -, -, hselects⟩ := selects_of_compile hm hmem
  cases hinfo
  obtain ⟨-, hselects⟩ := hselects _ (List.mem_singleton_self _)
  refine ⟨m, hm, hmem, List.mem_singleton_self _, (hselects (shelf [ada]) ada _ rfl rfl).2 ?_⟩
  exact .inl ⟨"id", .head _, nofun, by decide⟩

/-- A record with some unique value selects just the nodes that agree with it in such a value. -/
def SelectsAgreeing (c : Catalog) (m : CompiledCreate) : Prop :=
  ∀ model info records record, c.model model = .ok info → (model, records) ∈ m.staged →
    record ∈ records → (∃ k ∈ info.unique, (record.get? k).getD .null ≠ .null) →
    ∀ (D : Database) (n : Node) (row : Bindings),
      Entries.get? row (ReadBack.record model) = some (.value record) →
      Entries.get? row (ReadBack.node model) = some (.node n) →
      ((ReadBack.agreement model info.unique).eval D row = some true ↔
        ReadBack.Identifies D info.unique record n)

end Catalog

/-! ### Authors -/

open Schema

/-- Authors, who are known by an id or by their address. -/
def authors : Document :=
  [.type (.object {
    name := "Author"
    directives := [Directive.bare Names.model]
    fields := [
      { name := "name", type := .named "String" },
      { name := "email", type := .nonNull (.named "String")
        directives := [Directive.bare Names.unique] }] }),
   .type (.object {
    name := Names.mutation
    fields := [
      { name := "createAuthor", type := .named "Author"
        directives := [Directive.bare Names.binding] }] })]

/-- An author with an address and without an id. -/
def frankValues : Json.Object :=
  [("data", .object [("name", .string "Frank"), ("email", .string "frank@example.com")])]

/-- Another author. -/
def eve : Node := ⟨0, ["Author"], [("id", .string "e"), ("email", .string "eve@example.com")]⟩

/-- **A record that lacks a value selects every node.** Frank is created without an id, so that
Eve is found for him. -/
theorem Catalog.not_selectsAgreeing_frank : ∃ c m, Catalog.ofDocument authors = .ok c ∧
    (c.compile "createAuthor" frankValues none 0).1 = .ok (.create m) ∧
    ¬ c.SelectsAgreeing m := by
  let record : Json := .object [("id", .null), ("email", .string "frank@example.com")]
  obtain ⟨c, m, hc, hm, hinfo, hstaged⟩ : ∃ c m, Catalog.ofDocument authors = .ok c ∧
      (c.compile "createAuthor" frankValues none 0).1 = .ok (.create m) ∧
      (c.model "Author").map ModelInfo.unique = .ok ["id", "email"] ∧
      m.staged = [("Author", [record])] := ⟨_, _, rfl, rfl, rfl, rfl⟩
  obtain ⟨info, hinfo, hunique⟩ := ok_of_map hinfo
  refine ⟨c, m, hc, hm, fun hselects => ?_⟩
  have hiff := hselects "Author" info [record] record hinfo (hstaged ▸ .head _) (.head _)
    (hunique ▸ ⟨"email", .tail _ (.head _), nofun⟩) (shelf [eve]) eve
    [("_Author", .value record), ("AuthorNode", .node eve)] rfl rfl
  rw [hunique] at hiff
  obtain ⟨k, hk, hsupplied, hequal⟩ := hiff.1 rfl
  rcases List.mem_cons.1 hk with rfl | hk
  · exact hsupplied rfl
  · obtain rfl := List.mem_singleton.1 hk
    exact absurd hequal (by decide)

end GraphqlCypher
