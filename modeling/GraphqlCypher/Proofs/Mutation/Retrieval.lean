import GraphqlCypher.Mutation.ReadBack
import GraphqlCypher.Proofs.Cypher.Clauses
import GraphqlCypher.Proofs.Entries

/-! The lookups of a read-back.

The text of a read-back is that of a query (`ReadBack.text_eq`): three clauses for each model,
and a map with everything that was collected. A lookup that carries nothing along answers with
one row whatever comes in (`run_first`). A later one carries the lists of those before it, so
that it answers with one row if any node is found, and with none otherwise (`run_later`). -/
namespace GraphqlCypher

open Cypher

/-! ### The text as a query -/

namespace ReadBack

/-- The variable of a record. -/
def record (model : String) : String := "_" ++ model

/-- The variable of a node. -/
def node (model : String) : String := model ++ "Node"

/-- A node is found if it agrees with the record in a unique field, or if the record lacks one. -/
def agreement (model : String) (keys : List String) : Condition :=
  keys.map fun k =>
    [.equal ⟨node model, k⟩ ⟨record model, k⟩, .isNull ⟨record model, k⟩]

/-- The clauses of a lookup. -/
def lookupClauses (earlier : List String) (model : String) (keys : List String) : List Clause :=
  [.unwind model (record model), .search (node model) model (agreement model keys),
    .collect (node model) (collected model) (earlier.map collected)]

/-- The clauses of all lookups. -/
def clauses (earlier : List String) : ReadBack → List (List Clause)
  | [] => []
  | (model, keys) :: rest => lookupClauses earlier model keys :: clauses (earlier ++ [model]) rest

def query (r : ReadBack) : Query :=
  ⟨(clauses [] r).flatten, r.map fun (model, _) => (model, collected model)⟩

theorem text_agreement (model : String) (keys : List String) :
    (agreement model keys).text = condition model keys := by
  unfold agreement condition Condition.text
  rw [List.map_map]
  refine congrArg _ (List.map_congr_left fun k _ => String.toList_inj.1 ?_)
  simp [Test.text, Property.text, node, record, String.intercalate_cons_cons]

theorem lookup_eq (earlier : List String) (model : String) (keys : List String) :
    lookup earlier model keys =
      "\n" ++ "\n".intercalate ((lookupClauses earlier model keys).map Clause.text) ++ "\n" := by
  -- Texts that the lookup writes in one go and the clauses do not.
  have unwound : "\nUNWIND \x7b" = "\n" ++ "UNWIND \x7b" := rfl
  have bound : "\x7d AS _" = "\x7d AS " ++ "_" := rfl
  have searched : "\nMATCH (" = "\n" ++ "MATCH (" := rfl
  have labelled : "Node: " = "Node" ++ ": " := rfl
  have gathered : "\nWITH COLLECT(DISTINCT properties(" =
      "\n" ++ "WITH COLLECT(DISTINCT properties(" := rfl
  have named : "Node)) AS " = "Node" ++ ")) AS " := rfl
  unfold lookup
  rw [unwound, bound, searched, labelled, gathered, named]
  simp only [lookupClauses, List.map_cons, List.map_nil, Clause.text_unwind, Clause.text_search,
    Clause.text_collect, text_agreement, String.intercalate_cons_cons,
    String.intercalate_singleton, List.map_map, Function.comp_def, node, record,
    String.append_assoc]

/-- The text of a lookup stands between line breaks. -/
def block (lookup : List Clause) : String :=
  "\n" ++ "\n".intercalate (lookup.map Clause.text) ++ "\n"

theorem lookups_eq (earlier : List String) (r : ReadBack) :
    lookups earlier r = (clauses earlier r).map block := by
  induction r generalizing earlier with
  | nil => rfl
  | cons e rest ih =>
    obtain ⟨model, keys⟩ := e
    rw [lookups, clauses, List.map_cons, lookup_eq, ih]
    rfl

/-- **The text is that of the query.** -/
theorem text_eq (r : ReadBack) :
    r.text = "\n".intercalate ((clauses [] r).map block ++ [r.query.returnText ++ "\n"]) := by
  have returned : answer (r.map Prod.fst) = r.query.returnText ++ "\n" := by
    simp only [answer, Query.returnText, query, List.map_map, Function.comp_def]
    apply String.toList_inj.1
    simp
  rw [text, lookups_eq, returned]

/-! ### Names -/

/-- No node is called like a list that was collected. -/
def Apart (models : List String) : Prop :=
  ∀ later ∈ models, ∀ earlier ∈ models, node later ≠ collected earlier

theorem record_ne_node (model : String) : record model ≠ node model := by
  intro h
  have lengths := congrArg String.length h
  rw [record, node, String.length_append, String.length_append] at lengths
  have short : "_".length = 1 := rfl
  have long : "Node".length = 4 := rfl
  omega

theorem record_ne_collected (model model' : String) : record model ≠ collected model' := by
  intro h
  have heads := congrArg (fun s => s.toList.head?) h
  simp [record, collected] at heads

theorem collected_injective {model model' : String} (h : collected model = collected model') :
    model = model' := by
  have lists := congrArg String.toList h
  simp only [collected, String.toList_append, List.append_cancel_left_eq] at lists
  exact String.toList_inj.1 lists

/-! ### Nodes that match -/

/-- A node agrees with a record in a unique field, or the record lacks one. -/
def Agrees (D : Database) (keys : List String) (record : Json) (n : Node) : Prop :=
  ∃ k ∈ keys, D.equal (((Json.object n.properties).get? k).getD .null)
      ((record.get? k).getD .null) = some true ∨ (record.get? k).getD .null = .null

/-- A stored node of a model agrees with some record. -/
def Matches (D : Database) (model : String) (keys : List String) (records : List Json)
    (n : Node) : Prop :=
  n ∈ D.nodes ∧ model ∈ n.labels ∧ ∃ record ∈ records, Agrees D keys record n

/-- A list holds the properties of the nodes that match, and of no others. -/
structure Holds (D : Database) (matched : Node → Prop) (found : List Json) : Prop where
  only : ∀ v ∈ found, ∃ n, matched n ∧ v = .object n.properties
  every : ∀ n, matched n → ∃ v ∈ found, D.same v (.object n.properties) = true

/-! ### Rows of a lookup -/

section

variable {D : Database} {parameters : Json.Object} {model : String} {keys : List String}

/-- A row with a record and a node. -/
def extended (model : String) (row : Bindings) (v : Json) (n : Node) : Bindings :=
  row ++ [(record model, .value v)] ++ [(node model, .node n)]

/-- The rows of a lookup before they are collected. -/
def searched (D : Database) (parameters : Json.Object) (model : String) (keys : List String)
    (rows : List Bindings) : List Bindings :=
  (Clause.search (node model) model (agreement model keys)).run D parameters
    ((Clause.unwind model (record model)).run D parameters rows)

/-- A row does not bind the variables that a lookup introduces. -/
def Free (model : String) (row : Bindings) : Prop :=
  record model ∉ Entries.keys row ∧ node model ∉ Entries.keys row

theorem get?_extended (row : Bindings) (v : Json) (n : Node) (x : String) :
    Entries.get? (extended model row v n) x = (Entries.get? row x).or
      (if record model = x then some (.value v)
        else if node model = x then some (.node n) else none) := by
  rw [extended, List.append_assoc, Entries.get?_append]
  simp only [List.cons_append, List.nil_append, Entries.get?_cons]
  rfl

theorem get?_extended_record {row : Bindings} (free : Free model row) (v : Json) (n : Node) :
    Entries.get? (extended model row v n) (record model) = some (.value v) := by
  rw [get?_extended, Entries.get?_eq_none free.1, if_pos rfl]
  rfl

theorem get?_extended_node {row : Bindings} (free : Free model row) (v : Json) (n : Node) :
    Entries.get? (extended model row v n) (node model) = some (.node n) := by
  rw [get?_extended, Entries.get?_eq_none free.2,
    if_neg (record_ne_node model), if_pos rfl]
  rfl

/-- The condition of a lookup is true of the nodes that agree with the record, in every row that
has both. -/
theorem eval_agreement_of_get? {row : Bindings} {v : Json} {n : Node}
    (hrecord : Entries.get? row (record model) = some (.value v))
    (hnode : Entries.get? row (node model) = some (.node n)) :
    (agreement model keys).eval D row = some true ↔ Agrees D keys v n := by
  have record (k : String) : Property.eval ⟨record model, k⟩ row = (v.get? k).getD .null := by
    rw [Property.eval, Bindings.valueOf_of_get? hrecord, Bound.toJson]
  have node (k : String) : Property.eval ⟨node model, k⟩ row =
      ((Json.object n.properties).get? k).getD .null := by
    rw [Property.eval, Bindings.valueOf_of_get? hnode, Bound.toJson]
  have isNull (v : Json) : v.isNull = true ↔ v = .null := by cases v <;> simp [Json.isNull]
  simp only [Condition.eval_eq_true_iff, agreement, List.mem_map, exists_exists_and_eq_and,
    List.mem_cons, List.not_mem_nil, or_false, exists_eq_or_imp, exists_eq_left, Test.eval, record,
    node, Option.some.injEq, isNull, Agrees]

theorem eval_agreement {row : Bindings} (free : Free model row) (v : Json) (n : Node) :
    (agreement model keys).eval D (extended model row v n) = some true ↔ Agrees D keys v n :=
  eval_agreement_of_get? (get?_extended_record free v n) (get?_extended_node free v n)

/-- There is one row for each row that came in, each record and each node that agrees with it. -/
theorem mem_searched {rows : List Bindings} (free : ∀ row ∈ rows, Free model row)
    {row' : Bindings} :
    row' ∈ searched D parameters model keys rows ↔ ∃ row ∈ rows,
      ∃ v ∈ Clause.items parameters model, ∃ n ∈ D.nodes, model ∈ n.labels ∧ Agrees D keys v n ∧
        row' = extended model row v n := by
  simp only [searched, Clause.run, Clause.found, List.mem_flatMap, List.mem_map, List.mem_filter,
    decide_eq_true_eq]
  constructor
  · rintro ⟨_, ⟨row, hrow, v, hv, rfl⟩, n, ⟨hn, hlabel, h⟩, rfl⟩
    exact ⟨row, hrow, v, hv, n, hn, hlabel, (eval_agreement (free row hrow) v n).1 h, rfl⟩
  · rintro ⟨row, hrow, v, hv, n, hn, hlabel, h, rfl⟩
    have agrees := (eval_agreement (free row hrow) v n).2 h
    exact ⟨_, ⟨row, hrow, v, hv, rfl⟩, n, ⟨hn, hlabel, agrees⟩, rfl⟩

/-- The nodes that match, if any row came in, are collected. -/
theorem holds_searched {rows : List Bindings} (free : ∀ row ∈ rows, Free model row)
    (arrived : rows ≠ []) :
    Holds D (Matches D model keys (Clause.items parameters model))
      (distinct D.same ((searched D parameters model keys rows).filterMap
        (·.properties? (node model)))) := by
  have collected : ∀ v, v ∈ (searched D parameters model keys rows).filterMap
      (·.properties? (node model)) ↔ ∃ n, Matches D model keys (Clause.items parameters model) n ∧
        v = .object n.properties := by
    intro v
    rw [List.mem_filterMap]
    constructor
    · rintro ⟨row', hrow', hv⟩
      obtain ⟨row, hrow, record, hrecord, n, hn, hlabel, h, rfl⟩ := (mem_searched free).1 hrow'
      rw [Bindings.properties?, get?_extended_node (free row hrow)] at hv
      exact ⟨n, ⟨hn, hlabel, record, hrecord, h⟩, (Option.some.inj hv).symm⟩
    · rintro ⟨n, ⟨hn, hlabel, record, hrecord, h⟩, rfl⟩
      obtain ⟨row, hrow⟩ := List.exists_mem_of_ne_nil rows arrived
      refine ⟨_, (mem_searched free).2 ⟨row, hrow, record, hrecord, n, hn, hlabel, h, rfl⟩, ?_⟩
      rw [Bindings.properties?, get?_extended_node (free row hrow)]
  refine ⟨fun v hv => (collected v).1 (mem_of_mem_distinct v hv), fun n hn => ?_⟩
  exact exists_mem_distinct D.same_self _ ((collected _).2 ⟨n, hn, rfl⟩)

theorem rows_lookupClauses (earlier : List String) (rows : List Bindings) :
    Query.rows D parameters (lookupClauses earlier model keys) rows =
      (Clause.collect (node model) (collected model) (earlier.map collected)).run D parameters
        (searched D parameters model keys rows) := rfl

/-- Nothing is found if no node matches. -/
theorem searched_eq_nil_iff {row : Bindings} (free : Free model row) :
    searched D parameters model keys [row] = [] ↔
      ∀ n, ¬ Matches D model keys (Clause.items parameters model) n := by
  have single : ∀ r ∈ [row], Free model r := fun r hr => List.mem_singleton.1 hr ▸ free
  constructor
  · rintro none n ⟨hn, hlabel, v, hv, h⟩
    have hmem := (mem_searched single).2
      ⟨row, List.mem_singleton_self row, v, hv, n, hn, hlabel, h, rfl⟩
    rw [none] at hmem
    cases hmem
  · intro none
    refine List.eq_nil_iff_forall_not_mem.2 fun row' hrow' => ?_
    obtain ⟨_, -, v, hv, n, hn, hlabel, h, -⟩ := (mem_searched single).1 hrow'
    exact none n ⟨hn, hlabel, v, hv, h⟩

/-- All rows carry what the row carries that they come from. -/
theorem restrict_searched {earlier : List String} {row : Bindings} (free : Free model row)
    (bound : ∀ m ∈ earlier, ∃ b, Entries.get? row (collected m) = some b) :
    ∀ row' ∈ searched D parameters model keys [row],
      row'.restrict (earlier.map collected) = row.restrict (earlier.map collected) := by
  intro row' hrow'
  obtain ⟨_, hrow, v, -, n, -, -, -, rfl⟩ :=
    (mem_searched fun r hr => List.mem_singleton.1 hr ▸ free).1 hrow'
  rw [List.mem_singleton.1 hrow]
  refine Bindings.restrict_congr fun x hx => ?_
  obtain ⟨m, hm, rfl⟩ := List.mem_map.1 hx
  obtain ⟨b, hb⟩ := bound m hm
  rw [get?_extended, hb]
  rfl

variable (D parameters keys)

/-- **The first lookup answers with one row**, whatever comes in. -/
theorem run_first {rows : List Bindings} (free : ∀ row ∈ rows, Free model row) :
    ∃ found, Query.rows D parameters (lookupClauses [] model keys) rows =
        [[(collected model, .value (.array found))]] ∧
      (rows = [] → found = []) ∧
      (rows ≠ [] → Holds D (Matches D model keys (Clause.items parameters model)) found) := by
  refine ⟨distinct D.same ((searched D parameters model keys rows).filterMap
    (·.properties? (node model))), ?_, ?_, holds_searched free⟩
  · rw [rows_lookupClauses]
    simp only [Clause.run, Clause.groups, List.map_nil, List.isEmpty_nil, if_true, List.map_cons]
    have all : (searched D parameters model keys rows).filter
        (fun row => D.sameRow [] (row.restrict [])) = searched D parameters model keys rows :=
      List.filter_eq_self.2 fun _ _ => rfl
    rw [all]
  · rintro rfl
    rfl

/-- **A later lookup carries the lists along**: it answers with one row if some node matches,
and with none otherwise. -/
theorem run_later {earlier : List String} {row : Bindings} (later : earlier ≠ [])
    (free : Free model row) (bound : ∀ m ∈ earlier, ∃ b, Entries.get? row (collected m) = some b) :
    ((∀ n, ¬ Matches D model keys (Clause.items parameters model) n) →
      Query.rows D parameters (lookupClauses earlier model keys) [row] = []) ∧
    ((∃ n, Matches D model keys (Clause.items parameters model) n) →
      ∃ found, Query.rows D parameters (lookupClauses earlier model keys) [row] =
          [(collected model, .value (.array found)) :: row.restrict (earlier.map collected)] ∧
        Holds D (Matches D model keys (Clause.items parameters model)) found) := by
  have carried : (earlier.map collected).isEmpty = false := by simpa using later
  have same : ∀ row' ∈ searched D parameters model keys [row],
      row'.restrict (earlier.map collected) = row.restrict (earlier.map collected) :=
    restrict_searched free bound
  constructor
  · intro none
    rw [rows_lookupClauses, (searched_eq_nil_iff free).2 none]
    simp only [Clause.run, Clause.groups, carried]
    rfl
  · rintro ⟨n, hn⟩
    have inhabited : searched D parameters model keys [row] ≠ [] := fun none =>
      (searched_eq_nil_iff free).1 none n hn
    have one : Clause.groups D (earlier.map collected) (searched D parameters model keys [row]) =
        [row.restrict (earlier.map collected)] := by
      rw [Clause.groups, carried]
      refine distinct_eq_singleton D.sameRow_self (mt List.map_eq_nil_iff.1 inhabited)
        fun group hgroup => ?_
      obtain ⟨row', hrow', rfl⟩ := List.mem_map.1 hgroup
      exact same row' hrow'
    have all : (searched D parameters model keys [row]).filter (fun row' =>
        D.sameRow (row.restrict (earlier.map collected)) (row'.restrict (earlier.map collected))) =
        searched D parameters model keys [row] :=
      List.filter_eq_self.2 fun row' hrow' => by rw [same row' hrow', D.sameRow_self]
    refine ⟨_, ?_, holds_searched (fun r hr => List.mem_singleton.1 hr ▸ free)
      (List.cons_ne_nil row [])⟩
    rw [rows_lookupClauses]
    simp only [Clause.run, one, List.map_cons, List.map_nil, all]

end

end ReadBack

end GraphqlCypher
