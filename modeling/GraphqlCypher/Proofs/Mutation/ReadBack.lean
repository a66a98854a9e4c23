import GraphqlCypher.Proofs.Mutation.Retrieval
import GraphqlCypher.Proofs.Mutation.Staged

/-! What is read back from the database.

The rows that arrive come from the nested groups, and after an empty list there are none.
Then the first lookup finds nothing, and a later one that finds nothing loses the row. So
what was written may not come back (`not_answersOnce_stored`).

**Main result.** `Catalog.reads_back`: one row comes back just when every model but the first
has a node that one of its records matches. Its lists hold the nodes that match, but for the
first, which is empty if no row arrives. -/
namespace GraphqlCypher

open Cypher

namespace ReadBack

/-! ### All lookups -/

section

variable {D : Database} {parameters : Json.Object}

/-- A stored node matches some record of a model that is looked up. -/
def Matched (D : Database) (parameters : Json.Object) (e : String × List String) : Node → Prop :=
  Matches D e.1 e.2 (Clause.items parameters e.1)

/-- A row holds a list for each of some models, and nothing else. -/
structure Carries (row : Bindings) (models : List String) : Prop where
  bound : ∀ m ∈ models, ∃ b, Entries.get? row (collected m) = some b
  only : ∀ x ∈ Entries.keys row, ∃ m ∈ models, x = collected m

theorem Carries.free {row : Bindings} {models : List String} {model : String}
    (h : Carries row models) (apart : ∀ m ∈ models, node model ≠ collected m) :
    Free model row := by
  constructor
  · intro hmem
    obtain ⟨m, -, e⟩ := h.only _ hmem
    exact record_ne_collected model m e
  · intro hmem
    obtain ⟨m, hm, e⟩ := h.only _ hmem
    exact apart m hm e

/-- The row that a later lookup answers with. -/
theorem Carries.get?_next {row : Bindings} {models : List String} {model m : String} {b : Bound}
    (h : Carries row models) (hm : m ∈ models) (fresh : model ∉ models) :
    Entries.get? ((collected model, b) :: row.restrict (models.map collected)) (collected m) =
      Entries.get? row (collected m) := by
  have other : collected model ≠ collected m := fun e => fresh (collected_injective e ▸ hm)
  rw [Entries.get?_cons, if_neg other]
  refine Bindings.get?_restrict (fun x hx => ?_) (List.mem_map_of_mem hm)
  obtain ⟨m', hm', rfl⟩ := List.mem_map.1 hx
  exact h.bound m' hm'

theorem Carries.next {row : Bindings} {models : List String} {model : String} {b : Bound}
    (h : Carries row models) (fresh : model ∉ models) :
    Carries ((collected model, b) :: row.restrict (models.map collected)) (models ++ [model]) := by
  constructor
  · intro m hm
    rcases List.mem_append.1 hm with hm | hm
    · rw [h.get?_next hm fresh]
      exact h.bound m hm
    · rw [List.mem_singleton.1 hm, Entries.get?_cons, if_pos rfl]
      exact ⟨b, rfl⟩
  · intro x hx
    rcases List.mem_cons.1 hx with rfl | hx
    · exact ⟨model, List.mem_append_right _ (List.mem_singleton_self model), rfl⟩
    · obtain ⟨m, hm, rfl⟩ := List.mem_map.1 (Bindings.mem_of_mem_keys_restrict hx)
      exact ⟨m, List.mem_append_left _ hm, rfl⟩

/-- What is returned for a row. -/
def returned (row : Bindings) (models : List String) : Json.Object :=
  models.map fun m => (m, row.valueOf (collected m))

theorem keys_returned (row : Bindings) (models : List String) :
    Entries.keys (returned row models) = models := by
  simp [returned, Entries.keys, Function.comp_def]

theorem get?_returned (row : Bindings) {models : List String} (distinct : models.Nodup)
    {m : String} (hm : m ∈ models) :
    Entries.get? (returned row models) m = some (row.valueOf (collected m)) :=
  Entries.get?_of_mem ((keys_returned row models).symm ▸ distinct) (List.mem_map_of_mem hm)

/-- Where no row is left, none comes back. -/
theorem rows_clauses_nil {earlier : List String} (later : earlier ≠ []) (r : ReadBack) :
    Query.rows D parameters (clauses earlier r).flatten [] = [] := by
  induction r generalizing earlier with
  | nil => rfl
  | cons e rest ih =>
    obtain ⟨model, keys⟩ := e
    have carried : (earlier.map collected).isEmpty = false := by simpa using later
    have nothing : Query.rows D parameters (lookupClauses earlier model keys) [] = [] := by
      show (Clause.groups D (earlier.map collected) []).map _ = []
      rw [Clause.groups, carried]
      rfl
    rw [clauses, List.flatten_cons, Query.rows_append, nothing, ih (by simp)]

variable (D parameters)

/-- **The lookups after the first** keep one row as long as each of them finds something. -/
theorem run_clauses {r : ReadBack} :
    ∀ (earlier : List String) (row : Bindings), earlier ≠ [] → Carries row earlier →
      (earlier ++ r.map Prod.fst).Nodup → Apart (earlier ++ r.map Prod.fst) →
      ((∃ e ∈ r, ∀ n, ¬ Matched D parameters e n) →
        Query.rows D parameters (clauses earlier r).flatten [row] = []) ∧
      ((∀ e ∈ r, ∃ n, Matched D parameters e n) →
        ∃ row', Query.rows D parameters (clauses earlier r).flatten [row] = [row'] ∧
          (∀ m ∈ earlier, Entries.get? row' (collected m) = Entries.get? row (collected m)) ∧
          ∀ e ∈ r, ∃ found,
            Entries.get? row' (collected e.1) = some (.value (.array found)) ∧
              Holds D (Matched D parameters e) found) := by
  -- The row holds a list for each model so far and nothing else, so that no name is taken.
  induction r with
  | nil => exact fun _ _ _ _ _ _ => ⟨nofun, fun _ => ⟨_, rfl, fun _ _ => rfl, nofun⟩⟩
  | cons e rest ih =>
    obtain ⟨model, keys⟩ := e
    intro earlier row later carries distinct apart
    have here : model ∈ earlier ++ List.map Prod.fst ((model, keys) :: rest) :=
      List.mem_append_right _ List.mem_cons_self
    have fresh : model ∉ earlier := fun hmem =>
      (List.nodup_append.1 distinct).2.2 model hmem model List.mem_cons_self rfl
    have free : Free model row := carries.free fun m hm =>
      apart model here m (List.mem_append_left _ hm)
    obtain ⟨dies, goes⟩ := run_later D parameters keys later free carries.bound
    rw [clauses, List.flatten_cons, Query.rows_append]
    by_cases some : ∃ n, Matched D parameters (model, keys) n
    · obtain ⟨found, hrow, holds⟩ := goes some
      rw [hrow]
      have assoc : earlier ++ List.map Prod.fst ((model, keys) :: rest) =
          earlier ++ [model] ++ rest.map Prod.fst := by simp
      rw [assoc] at distinct apart
      obtain ⟨restDies, restGoes⟩ := ih (earlier ++ [model])
        ((collected model, .value (.array found)) :: row.restrict (earlier.map collected))
        (by simp) (carries.next fresh) distinct apart
      refine ⟨?_, fun all => ?_⟩
      · rintro ⟨e, he, none⟩
        rcases List.mem_cons.1 he with rfl | he
        · obtain ⟨n, hn⟩ := some
          exact absurd hn (none n)
        · exact restDies ⟨e, he, none⟩
      · obtain ⟨row', hrow', kept, lists⟩ :=
          restGoes fun e he => all e (List.mem_cons_of_mem _ he)
        refine ⟨row', hrow', fun m hm => ?_, fun e he => ?_⟩
        · rw [kept m (List.mem_append_left _ hm), carries.get?_next hm fresh]
        · rcases List.mem_cons.1 he with rfl | he
          · refine ⟨found, ?_, holds⟩
            rw [kept model (List.mem_append_right _ (List.mem_singleton_self model)),
              Entries.get?_cons, if_pos rfl]
          · exact lists e he
    · have none : ∀ n, ¬ Matched D parameters (model, keys) n := fun n hn => some ⟨n, hn⟩
      rw [dies none]
      exact ⟨fun _ => rows_clauses_nil (by simp) rest,
        fun all => absurd (all _ List.mem_cons_self) some⟩

/-- What comes back from the database. -/
theorem run_query (model : String) (keys : List String) (rest : ReadBack)
    {arriving : List Bindings} (free : ∀ row ∈ arriving, Free model row)
    (distinct : (model :: rest.map Prod.fst).Nodup) (apart : Apart (model :: rest.map Prod.fst)) :
    ((∃ e ∈ rest, ∀ n, ¬ Matched D parameters e n) →
      (query ((model, keys) :: rest)).run D parameters arriving = []) ∧
    ((∀ e ∈ rest, ∃ n, Matched D parameters e n) →
      ∃ row : Bindings, (query ((model, keys) :: rest)).run D parameters arriving =
          [.object (returned row (model :: rest.map Prod.fst))] ∧
        (∃ first, row.valueOf (collected model) = .array first ∧ (arriving = [] → first = []) ∧
          (arriving ≠ [] → Holds D (Matched D parameters (model, keys)) first)) ∧
        ∀ e ∈ rest, ∃ found, row.valueOf (collected e.1) = .array found ∧
          Holds D (Matched D parameters e) found) := by
  obtain ⟨first, hfirst, nothing, holds⟩ := run_first D parameters keys free
  have carries : Carries [(collected model, .value (.array first))] [model] := by
    constructor
    · intro m hm
      rw [List.mem_singleton.1 hm, Entries.get?_cons, if_pos rfl]
      exact ⟨_, rfl⟩
    · intro x hx
      exact ⟨model, List.mem_singleton_self model, List.mem_singleton.1 hx⟩
  obtain ⟨dies, goes⟩ := run_clauses D parameters (r := rest) [model] _
    (List.cons_ne_nil model []) carries distinct apart
  have rows : Query.rows D parameters (query ((model, keys) :: rest)).clauses arriving =
      Query.rows D parameters (clauses [model] rest).flatten
        [[(collected model, .value (.array first))]] := by
    show Query.rows D parameters (clauses [] ((model, keys) :: rest)).flatten arriving = _
    rw [clauses, List.flatten_cons, Query.rows_append, hfirst]
    rfl
  rw [Query.run, rows]
  refine ⟨fun none => by rw [dies none]; rfl, fun all => ?_⟩
  obtain ⟨row, hrow, kept, lists⟩ := goes all
  have kept : Entries.get? row (collected model) = some (.value (.array first)) := by
    rw [kept model (List.mem_singleton_self model), Entries.get?_cons, if_pos rfl]
  refine ⟨row, ?_, ⟨first, Bindings.valueOf_of_get? kept, nothing, holds⟩, fun e he => ?_⟩
  · rw [hrow]
    simp only [query, returned, List.map_cons, List.map_nil, List.map_map, Function.comp_def]
  · obtain ⟨found, hfound, holds⟩ := lists e he
    exact ⟨found, Bindings.valueOf_of_get? hfound, holds⟩

end

end ReadBack

/-! ### Staged records -/

/-- The parameters of a statement: the arguments, and the staged records by model. -/
def stagedParameters (arguments : Json.Object) (staged : Entries (List Json)) : Json.Object :=
  Entries.insertAll [(argumentsParameter, .object arguments)]
    (staged.map fun (model, records) => (model, .array records))

theorem items_stagedParameters {arguments : Json.Object} {staged : Entries (List Json)}
    (distinct : (Entries.keys staged).Nodup) {e : String × List Json} (he : e ∈ staged) :
    Clause.items (stagedParameters arguments staged) e.1 = e.2 := by
  have keys : Entries.keys (staged.map fun (model, records) => (model, Json.array records)) =
      Entries.keys staged := by
    rw [Entries.keys, List.map_map]
    rfl
  have value : Entries.get? (staged.map fun (model, records) => (model, Json.array records)) e.1 =
      some (.array e.2) :=
    Entries.get?_of_mem (keys ▸ distinct) (List.mem_map.2 ⟨e, he, rfl⟩)
  rw [Clause.items, stagedParameters, Entries.get?_insertAll (keys ▸ distinct), value]
  rfl

namespace Catalog

variable {c : Catalog}

/-- The models of staged records, each with its unique fields. -/
def readBackOf (c : Catalog) (staged : Entries (List Json)) : Except Failure ReadBack :=
  staged.mapM fun (model, _) => (c.model model).map fun m => (model, m.unique)

/-- A stored node matches a record that is staged for its model. -/
def Reads (c : Catalog) (D : Database) (e : String × List Json) (n : Node) : Prop :=
  ∃ info, c.model e.1 = .ok info ∧ ReadBack.Matches D e.1 info.unique e.2 n

/-- A model is looked up by its unique fields. -/
def lookupOf (c : Catalog) (e : String × List Json) : String × List String :=
  (e.1, ((Entries.get? c.models e.1).map ModelInfo.unique).getD [])

theorem readBackOf_ok {staged : Entries (List Json)} {r : ReadBack}
    (h : c.readBackOf staged = .ok r) : r = staged.map c.lookupOf ∧
      ∀ e ∈ staged, ∃ info, c.model e.1 = .ok info ∧ c.lookupOf e = (e.1, info.unique) := by
  have known : ∀ info (e : String × List Json), c.model e.1 = .ok info →
      c.lookupOf e = (e.1, info.unique) := by
    intro info e hinfo
    rw [lookupOf, (model_ok_iff _ _ _).1 hinfo]
    rfl
  constructor
  · refine mapM_eq_map_of_ok (fun e l he => ?_) h
    obtain ⟨info, hinfo, rfl⟩ := ok_of_map he
    exact (known info e hinfo).symm
  · intro e he
    obtain ⟨l, -, hl⟩ := exists_of_mapM_ok h e he
    obtain ⟨info, hinfo, -⟩ := ok_of_map hl
    exact ⟨info, hinfo, known info e hinfo⟩

/-- What a mutation that was compiled reads back, of one model at least. -/
theorem readBack_of_compile {name : String} {values : Json.Object} {ids : Option IdGenerator}
    {drawn : Nat} {m : CompiledCreate} (h : (c.compile name values ids drawn).1 = .ok (.create m)) :
    c.readBackOf m.staged = .ok m.readBack ∧ (Entries.keys m.staged).Nodup ∧ m.staged ≠ [] ∧
      m.parameters = stagedParameters m.arguments m.staged := by
  have settles := (settles_of_compile h).length_eq
  obtain ⟨info, data, t, -, -, -, ends⟩ := root_of_compile h
  simp only [compileRoot, WalkM.ends_bind, WalkM.ends_lift, WalkM.ends_get, WalkM.ends_pure] at ends
  obtain ⟨new, s, -, root, _, ⟨known, -⟩, out, _, -, u, _, ⟨rfl, -⟩, r, _, ⟨hr, -⟩, rfl, -⟩ := ends
  refine ⟨hr, keys_stagedRecords c _ ▸ nodup_eraseDups _, fun none => ?_, rfl⟩
  -- The root was visited.
  have keys : (u.visits.map Visit.model).eraseDups = [] := by
    rw [← keys_stagedRecords c]
    exact congrArg Entries.keys none
  have visits : u.visits = [] := List.eq_nil_iff_forall_not_mem.2 fun v hv => by
    have hmem := List.mem_eraseDups.2 (List.mem_map_of_mem hv : v.model ∈ _)
    rw [keys] at hmem
    cases hmem
  simp [CompiledCreate.reached, visits, maxNesting, events, known, visitsOf, WalkEvent.visit?]
    at settles

theorem matched_iff {staged : Entries (List Json)} {r : ReadBack}
    (h : c.readBackOf staged = .ok r) (distinct : (Entries.keys staged).Nodup) (D : Database)
    (arguments : Json.Object) {e : String × List Json} (he : e ∈ staged) (n : Node) :
    ReadBack.Matched D (stagedParameters arguments staged) (c.lookupOf e) n ↔ c.Reads D e n := by
  obtain ⟨info, hinfo, hlookup⟩ := (readBackOf_ok h).2 e he
  rw [hlookup, ReadBack.Matched, items_stagedParameters distinct he]
  exact ⟨fun h => ⟨info, hinfo, h⟩, fun ⟨info', hinfo', h⟩ => by
    cases hinfo.symm.trans hinfo'
    exact h⟩

/-- **What comes back.** The text of a read-back is that of its query. One row comes back
just when every model but the first has a node that one of its records matches; its lists
hold all nodes that match, but for the first, which is empty if no row arrives. -/
theorem reads_back {staged : Entries (List Json)} {r : ReadBack}
    (h : c.readBackOf staged = .ok r) (distinct : (Entries.keys staged).Nodup)
    (nonempty : staged ≠ []) (apart : ReadBack.Apart (Entries.keys staged)) (D : Database)
    (arguments : Json.Object) {arriving : List Bindings}
    (free : ∀ model ∈ (Entries.keys staged).head?, ∀ row ∈ arriving, ReadBack.Free model row) :
    r.text = "\n".intercalate
      ((ReadBack.clauses [] r).map ReadBack.block ++ [r.query.returnText ++ "\n"]) ∧
    ((∃ e ∈ staged.tail, ∀ n, ¬ c.Reads D e n) →
      r.query.run D (stagedParameters arguments staged) arriving = []) ∧
    ((∀ e ∈ staged.tail, ∃ n, c.Reads D e n) → ∃ answer : Json.Object,
      r.query.run D (stagedParameters arguments staged) arriving = [.object answer] ∧
      Entries.keys answer = Entries.keys staged ∧
      (arriving = [] → ∀ e ∈ staged.head?, Entries.get? answer e.1 = some (.array [])) ∧
      ∀ e ∈ staged, (arriving = [] → e ∈ staged.tail) → ∃ found,
        Entries.get? answer e.1 = some (.array found) ∧
          ReadBack.Holds D (c.Reads D e) found) := by
  obtain ⟨rfl, known⟩ := readBackOf_ok h
  have matched (e : String × List Json) (he : e ∈ staged) :
      ReadBack.Matched D (stagedParameters arguments staged) (c.lookupOf e) = c.Reads D e :=
    funext fun n => propext (matched_iff h distinct D arguments he n)
  refine ⟨ReadBack.text_eq _, ?_⟩
  obtain ⟨e₀, rest, rfl⟩ := List.exists_cons_of_ne_nil nonempty
  have models : e₀.1 :: (rest.map c.lookupOf).map Prod.fst = Entries.keys (e₀ :: rest) := by
    simp [Entries.keys, lookupOf]
  obtain ⟨dies, goes⟩ := ReadBack.run_query D (stagedParameters arguments (e₀ :: rest)) e₀.1
    (c.lookupOf e₀).2 (rest.map c.lookupOf) (free e₀.1 rfl) (models ▸ distinct) (models ▸ apart)
  refine ⟨?_, fun all => ?_⟩
  · rintro ⟨e, he, none⟩
    refine dies ⟨c.lookupOf e, List.mem_map_of_mem he, ?_⟩
    rw [matched e (List.mem_cons_of_mem _ he)]
    exact none
  · obtain ⟨row, hrun, ⟨first, hfirst, nothing, holds⟩, lists⟩ := goes fun l hl => by
      obtain ⟨e, he, rfl⟩ := List.mem_map.1 hl
      rw [matched e (List.mem_cons_of_mem _ he)]
      exact all e he
    rw [models] at hrun
    have value (e : String × List Json) (he : e ∈ e₀ :: rest) :=
      ReadBack.get?_returned row distinct (List.mem_map_of_mem he)
    refine ⟨ReadBack.returned row (Entries.keys (e₀ :: rest)), hrun, ReadBack.keys_returned _ _,
      fun none e he => ?_, fun e he later => ?_⟩
    · cases he
      rw [value e₀ List.mem_cons_self, hfirst, nothing none]
    · rcases List.mem_cons.1 he with rfl | hrest
      · have arrived : arriving ≠ [] := fun none =>
          (List.nodup_cons.1 distinct).1 (List.mem_map_of_mem (later none))
        rw [value e he, hfirst, ← matched e he]
        exact ⟨first, rfl, holds arrived⟩
      · obtain ⟨found, hfound, holds⟩ := lists _ (List.mem_map_of_mem hrest)
        rw [value e he, ← matched e he]
        exact ⟨found, congrArg some hfound, holds⟩

end Catalog

/-! ### People and pets -/

/-- A database that compares values by their texts. -/
def shelf (nodes : List Node) : Database where
  nodes
  equal v w := if v.isNull || w.isNull then none else some (v.compact == w.compact)
  same v w := v.compact == w.compact
  same_self v := beq_self_eq_true v.compact

/-- People and pets, each known by an id. -/
def petsCatalog : Catalog where
  generated := []
  models :=
    [("Person", ⟨[("pets", "Pet")], ["pets"], [("id", "ID"), ("name", "String")], ["id"]⟩),
      ("Pet", ⟨[], [], [("id", "ID")], ["id"]⟩)]
  mutations := []

/-- Somebody who is stored. -/
def ada : Node := ⟨0, ["Person"], [("id", .string "a"), ("name", .string "Ada")]⟩

/-- A pet that is stored. -/
def rex : Node := ⟨1, ["Pet"], [("id", .string "r")]⟩

/-- A record with an id. -/
def byId (id : String) : Json := .object [("id", .string id)]

/-- Records of both. -/
def petsStaged : Entries (List Json) := [("Person", [byId "a"]), ("Pet", [byId "r"])]

/-- The row that arrives when somebody is joined to a pet. -/
def petsRow : Bindings := [("PersonPetsPet", .value (byId "r"))]

def petsReadBack : ReadBack := [("Person", ["id"]), ("Pet", ["id"])]

theorem Catalog.reads_back_pets : petsCatalog.readBackOf petsStaged = .ok petsReadBack ∧
    ∃ answer : Json.Object, petsReadBack.query.run (shelf [ada, rex])
        (stagedParameters [] petsStaged) [petsRow] = [.object answer] ∧
      ∃ found, Entries.get? answer "Person" = some (.array found) ∧
        ∃ v ∈ found, v.compact = (Json.object ada.properties).compact := by
  have known : petsCatalog.readBackOf petsStaged = .ok petsReadBack := rfl
  have person : petsCatalog.Reads (shelf [ada, rex]) ("Person", [byId "a"]) ada :=
    ⟨_, rfl, .head _, .head _, _, .head _, "id", .head _, .inl (by decide)⟩
  have pet : petsCatalog.Reads (shelf [ada, rex]) ("Pet", [byId "r"]) rex :=
    ⟨_, rfl, .tail _ (.head _), .head _, _, .head _, "id", .head _, .inl (by decide)⟩
  have apart : ReadBack.Apart (Entries.keys petsStaged) := by
    unfold ReadBack.Apart
    decide
  have free : ∀ model ∈ (Entries.keys petsStaged).head?, ∀ row ∈ [petsRow],
      ReadBack.Free model row := by
    rintro model ⟨⟩ row hrow
    rw [List.mem_singleton.1 hrow]
    exact ⟨by decide, by decide⟩
  obtain ⟨-, -, goes⟩ := reads_back known (by decide) nofun apart (shelf [ada, rex]) [] free
  obtain ⟨answer, hanswer, -, -, lists⟩ :=
    goes fun e he => ⟨rex, List.mem_singleton.1 he ▸ pet⟩
  obtain ⟨found, hfound, -, every⟩ := lists _ (.head _) nofun
  obtain ⟨v, hv, same⟩ := every ada person
  exact ⟨known, answer, hanswer, found, hfound, v, hv, beq_iff_eq.1 same⟩

/-- Everything comes back in one row: for each model a list of the nodes that match. -/
def Catalog.AnswersOnce (c : Catalog) (D : Database) (arguments : Json.Object)
    (staged : Entries (List Json)) (r : ReadBack) (arriving : List Bindings) : Prop :=
  ∃ answer : Json.Object,
    r.query.run D (stagedParameters arguments staged) arriving = [.object answer] ∧
      ∀ e ∈ staged, ∃ found, Entries.get? answer e.1 = some (.array found) ∧
        ReadBack.Holds D (c.Reads D e) found

/-- Somebody without friends. -/
def lonely : Json.Object :=
  [("data", .object [("id", .string "a"), ("friends", .object [("create", .array [])])])]

/-- Somebody who was stored is not found after an empty list of friends, and nothing comes
back if a pet is not stored. -/
theorem not_answersOnce_stored :
    (∃ m, (friendsCatalog.compile "createPerson" lonely none 0).1 = .ok (.create m) ∧
      friendsCatalog.readBackOf m.staged = .ok m.readBack ∧
      ¬ friendsCatalog.AnswersOnce (shelf [ada]) m.arguments m.staged m.readBack []) ∧
    petsCatalog.readBackOf petsStaged = .ok petsReadBack ∧
    ¬ petsCatalog.AnswersOnce (shelf [ada]) [] petsStaged petsReadBack [petsRow] := by
  refine ⟨?_, rfl, ?_⟩
  · obtain ⟨m, hm, staged, none⟩ : ∃ m,
        (friendsCatalog.compile "createPerson" lonely none 0).1 = .ok (.create m) ∧
        m.staged = [("Person", [byId "a"])] ∧
        m.readBack.query.run (shelf [ada]) (stagedParameters m.arguments m.staged) [] =
          [.object [("Person", .array [])]] := ⟨_, rfl, rfl, rfl⟩
    refine ⟨m, hm, (Catalog.readBack_of_compile hm).1, fun ⟨answer, hanswer, lists⟩ => ?_⟩
    rw [none] at hanswer
    cases hanswer
    rw [staged] at lists
    obtain ⟨found, hfound, -, every⟩ := lists _ (.head _)
    cases hfound
    obtain ⟨v, hv, -⟩ := every ada
      ⟨_, rfl, .head _, .head _, _, .head _, "id", .head _, .inl (by decide)⟩
    cases hv
  · rintro ⟨answer, hanswer, -⟩
    have none : petsReadBack.query.run (shelf [ada]) (stagedParameters [] petsStaged) [petsRow] =
      [] := rfl
    cases none.symm.trans hanswer

end GraphqlCypher
