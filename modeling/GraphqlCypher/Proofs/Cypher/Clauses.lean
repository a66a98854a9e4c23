import GraphqlCypher.Json.Basic
import Mathlib.Data.List.Basic
import Mathlib.Data.List.Induction

/-! What clauses of Cypher do to rows.

A row binds variables. Each clause takes all rows at once and hands on others: `UNWIND` gives
one for each item, `MATCH` one for each node, and an aggregating `WITH` one for each group. No
variable is bound twice in a query; the first binding would stay.

How values are compared is up to the database: by a three-valued `=` in conditions, and by an
equivalence of its own wherever it looks for distinct values. -/
namespace GraphqlCypher.Cypher

/-! ### Databases -/

/-- A stored node. -/
structure Node where
  id : Nat
  labels : List String
  properties : Json.Object
deriving Repr

/-- The nodes that are stored, and how values are compared. -/
structure Database where
  nodes : List Node
  /-- `=`, where `none` stands for an unknown truth. -/
  equal : Json → Json → Option Bool
  /-- Whether two values are one for `DISTINCT` and for groups. -/
  same : Json → Json → Bool
  same_self : ∀ v, same v v = true

/-- What a variable is bound to. -/
inductive Bound where
  | value (v : Json)
  | node (n : Node)

/-- The variables of a row. -/
abbrev Bindings := Entries Bound

/-- A variable as a value: a node is the map of its properties. -/
def Bound.toJson : Bound → Json
  | .value v => v
  | .node n => .object n.properties

namespace Bindings

/-- The value of a variable, `null` if there is none. -/
def valueOf (row : Bindings) (x : String) : Json :=
  ((Entries.get? row x).map Bound.toJson).getD .null

theorem valueOf_of_get? {row : Bindings} {x : String} {b : Bound}
    (h : Entries.get? row x = some b) : row.valueOf x = b.toJson := by
  rw [valueOf, h]
  rfl

/-- The properties of the node that a variable is bound to. -/
def properties? (row : Bindings) (x : String) : Option Json :=
  match Entries.get? row x with
  | some (.node n) => some (.object n.properties)
  | _ => none

/-- Some variables of a row. -/
def restrict (row : Bindings) (xs : List String) : Bindings :=
  xs.filterMap fun x => (Entries.get? row x).map fun b => (x, b)

theorem restrict_congr {row row' : Bindings} {xs : List String}
    (h : ∀ x ∈ xs, Entries.get? row x = Entries.get? row' x) :
    row.restrict xs = row'.restrict xs :=
  List.filterMap_congr fun x hx => by rw [h x hx]

theorem mem_of_mem_keys_restrict {row : Bindings} {xs : List String} {x : String}
    (h : x ∈ Entries.keys (row.restrict xs)) : x ∈ xs := by
  obtain ⟨e, he, rfl⟩ := List.mem_map.1 h
  obtain ⟨y, hy, hbound⟩ := List.mem_filterMap.1 he
  obtain ⟨b, -, rfl⟩ := Option.map_eq_some_iff.1 hbound
  exact hy

/-- The variables that are kept are bound as before. -/
theorem get?_restrict {row : Bindings} {xs : List String}
    (bound : ∀ x ∈ xs, ∃ b, Entries.get? row x = some b) {x : String} (hx : x ∈ xs) :
    Entries.get? (row.restrict xs) x = Entries.get? row x := by
  induction xs with
  | nil => cases hx
  | cons y rest ih =>
    obtain ⟨b, hb⟩ := bound y List.mem_cons_self
    rw [restrict, List.filterMap_cons, hb]
    show Entries.get? ((y, b) :: row.restrict rest) x = _
    rw [Entries.get?_cons]
    by_cases hyx : y = x
    · rw [if_pos hyx, ← hyx, hb]
    · rw [if_neg hyx]
      exact ih (fun z hz => bound z (List.mem_cons_of_mem _ hz))
        ((List.mem_cons.1 hx).resolve_left fun h => hyx h.symm)

end Bindings

/-! ### Distinct elements -/

/-- The first of all elements that are the same. -/
def distinct {α : Type} (same : α → α → Bool) (l : List α) : List α :=
  l.foldl (fun kept x => if kept.any (same · x) then kept else kept ++ [x]) []

section

variable {α : Type} {same : α → α → Bool}

theorem distinct_concat (l : List α) (x : α) : distinct same (l ++ [x]) =
    if (distinct same l).any (same · x) then distinct same l else distinct same l ++ [x] := by
  rw [distinct, List.foldl_append]
  rfl

theorem mem_of_mem_distinct {l : List α} : ∀ y ∈ distinct same l, y ∈ l := by
  induction l using List.reverseRecOn with
  | nil => exact fun y hy => hy
  | append_singleton l x ih =>
    intro y hy
    rw [distinct_concat] at hy
    split at hy
    · exact List.mem_append_left _ (ih y hy)
    · rcases List.mem_append.1 hy with hy | hy
      · exact List.mem_append_left _ (ih y hy)
      · exact List.mem_append_right _ hy

/-- For every element there is one that was kept. -/
theorem exists_mem_distinct (self : ∀ x, same x x = true) {l : List α} :
    ∀ x ∈ l, ∃ y ∈ distinct same l, same y x = true := by
  induction l using List.reverseRecOn with
  | nil => exact fun x hx => absurd hx List.not_mem_nil
  | append_singleton l x ih =>
    intro z hz
    rw [distinct_concat]
    split
    · next kept =>
      rcases List.mem_append.1 hz with hz | hz
      · exact ih z hz
      · rw [List.mem_singleton.1 hz]
        exact List.any_eq_true.1 kept
    · rcases List.mem_append.1 hz with hz | hz
      · obtain ⟨y, hy, hsame⟩ := ih z hz
        exact ⟨y, List.mem_append_left _ hy, hsame⟩
      · rw [List.mem_singleton.1 hz]
        exact ⟨x, List.mem_append_right _ (List.mem_singleton_self x), self x⟩

/-- Equal elements are one. -/
theorem distinct_eq_singleton (self : ∀ x, same x x = true) {l : List α} {x : α} (hl : l ≠ [])
    (all : ∀ y ∈ l, y = x) : distinct same l = [x] := by
  induction l using List.reverseRecOn with
  | nil => exact absurd rfl hl
  | append_singleton l y ih =>
    obtain rfl := all y (List.mem_append_right _ (List.mem_singleton_self y))
    rw [distinct_concat]
    cases l with
    | nil => rfl
    | cons z rest =>
      rw [ih (by simp) fun w hw => all w (List.mem_append_left _ hw)]
      simp [self]

end

namespace Database

variable (D : Database)

/-- Whether two variables have one value. -/
def sameBound : Bound → Bound → Bool
  | .value v, .value w => D.same v w
  | .node n, .node m => n.id == m.id
  | _, _ => false

/-- Whether two rows have one value for each variable. -/
def sameRow (a b : Bindings) : Bool := (a.zip b).all fun (x, y) => D.sameBound x.2 y.2

theorem sameBound_self (b : Bound) : D.sameBound b b = true := by
  cases b with
  | value v => exact D.same_self v
  | node n => exact beq_self_eq_true n.id

theorem sameRow_self (a : Bindings) : D.sameRow a a = true := by
  induction a with
  | nil => rfl
  | cons x rest ih =>
    rw [sameRow, List.zip_cons_cons, List.all_cons, Bool.and_eq_true]
    exact ⟨D.sameBound_self x.2, ih⟩

end Database

/-! ### Conditions -/

/-- The property of a variable. -/
structure Property where
  owner : String
  key : String
deriving DecidableEq, Repr

namespace Property

def text (p : Property) : String := p.owner ++ "." ++ p.key

/-- What a row has for a property, `null` if it has nothing. -/
def eval (p : Property) (row : Bindings) : Json := ((row.valueOf p.owner).get? p.key).getD .null

end Property

inductive Test where
  | equal (a b : Property)
  | isNull (a : Property)
deriving DecidableEq, Repr

namespace Test

def text : Test → String
  | .equal a b => a.text ++ " = " ++ b.text
  | .isNull a => a.text ++ " IS NULL"

def eval (D : Database) (row : Bindings) : Test → Option Bool
  | .equal a b => D.equal (a.eval row) (b.eval row)
  | .isNull a => some (a.eval row).isNull

end Test

/-- `OR`: true if one side is, and unknown if neither is but one may be. -/
def orElse : Option Bool → Option Bool → Option Bool
  | some true, _ => some true
  | _, some true => some true
  | some false, some false => some false
  | _, _ => none

/-- Truths joined by `OR`. -/
def anyOf (l : List (Option Bool)) : Option Bool := l.foldr orElse (some false)

theorem orElse_eq_true_iff {a b : Option Bool} :
    orElse a b = some true ↔ a = some true ∨ b = some true := by
  rcases a with _ | _ | _ <;> rcases b with _ | _ | _ <;> simp [orElse]

theorem anyOf_eq_true_iff {l : List (Option Bool)} : anyOf l = some true ↔ some true ∈ l := by
  induction l with
  | nil => simp [anyOf]
  | cons b rest ih =>
    rw [anyOf, List.foldr_cons, orElse_eq_true_iff, ← anyOf, ih, List.mem_cons, eq_comm]

/-- Groups of tests: one of all of them has to hold. -/
abbrev Condition := List (List Test)

namespace Condition

def text (c : Condition) : String :=
  " OR ".intercalate (c.map fun tests => "(" ++ " OR ".intercalate (tests.map Test.text) ++ ")")

def eval (c : Condition) (D : Database) (row : Bindings) : Option Bool :=
  anyOf (c.map fun tests => anyOf (tests.map (Test.eval D row)))

theorem eval_eq_true_iff {c : Condition} {D : Database} {row : Bindings} :
    c.eval D row = some true ↔ ∃ tests ∈ c, ∃ t ∈ tests, t.eval D row = some true := by
  simp only [eval, anyOf_eq_true_iff, List.mem_map]

end Condition

/-! ### Clauses -/

inductive Clause where
  /-- Goes through the items of a parameter. -/
  | unwind (parameter item : String)
  /-- Finds the nodes with a label for which a condition is true. -/
  | search (node label : String) (condition : Condition)
  /-- Collects the distinct properties of nodes, one list for each value of what is carried
  along. -/
  | collect (node list : String) (carried : List String)
deriving DecidableEq, Repr

namespace Clause

def text : Clause → String
  | .unwind parameter item => "UNWIND \x7b" ++ parameter ++ "\x7d AS " ++ item
  | .search node label condition =>
    "MATCH (" ++ node ++ ": " ++ label ++ ") WHERE " ++ condition.text
  | .collect node list carried =>
    "WITH COLLECT(DISTINCT properties(" ++ node ++ ")) AS " ++ list ++
      String.join (carried.map fun x => ", " ++ x)

theorem text_unwind (parameter item : String) :
    (unwind parameter item).text = "UNWIND \x7b" ++ parameter ++ "\x7d AS " ++ item := rfl

theorem text_search (node label : String) (condition : Condition) :
    (search node label condition).text =
      "MATCH (" ++ node ++ ": " ++ label ++ ") WHERE " ++ condition.text := rfl

theorem text_collect (node list : String) (carried : List String) :
    (collect node list carried).text = "WITH COLLECT(DISTINCT properties(" ++ node ++ ")) AS " ++
      list ++ String.join (carried.map fun x => ", " ++ x) := rfl

/-- The items of a parameter: `null` has none, and a single value is its own. -/
def items (parameters : Json.Object) (parameter : String) : List Json :=
  ((Json.given? (Entries.get? parameters parameter)).map Json.elements).getD []

/-- The rows of a search that begins at a row. -/
def found (D : Database) (node label : String) (condition : Condition) (row : Bindings) :
    List Bindings :=
  (D.nodes.filter fun n => label ∈ n.labels ∧
    condition.eval D (row ++ [(node, .node n)]) = some true).map fun n => row ++ [(node, .node n)]

/-- The groups of rows: one if nothing is carried along, even if there are no rows. -/
def groups (D : Database) (carried : List String) (rows : List Bindings) : List Bindings :=
  if carried.isEmpty then [[]] else distinct D.sameRow (rows.map (·.restrict carried))

/-- The rows after a clause. -/
def run (D : Database) (parameters : Json.Object) : Clause → List Bindings → List Bindings
  | .unwind parameter item, rows =>
    rows.flatMap fun row => (items parameters parameter).map fun v => row ++ [(item, .value v)]
  | .search node label condition, rows => rows.flatMap (found D node label condition)
  | .collect node list carried, rows =>
    (groups D carried rows).map fun group =>
      (list, .value (.array (distinct D.same
        ((rows.filter fun row => D.sameRow group (row.restrict carried)).filterMap
          (·.properties? node))))) :: group

end Clause

/-- Clauses, and the map that is returned for each row at the end. -/
structure Query where
  clauses : List Clause
  returned : List (String × String)

namespace Query

def returnText (q : Query) : String :=
  "RETURN \x7b\n" ++ ",\n".intercalate (q.returned.map fun (k, x) => "  " ++ k ++ ": " ++ x) ++
    "\n\x7d"

/-- The rows after all clauses. -/
def rows (D : Database) (parameters : Json.Object) (clauses : List Clause)
    (rows : List Bindings) : List Bindings :=
  clauses.foldl (fun rows c => c.run D parameters rows) rows

theorem rows_append (D : Database) (parameters : Json.Object) (a b : List Clause)
    (l : List Bindings) :
    rows D parameters (a ++ b) l = rows D parameters b (rows D parameters a l) :=
  List.foldl_append

/-- What a query returns when rows arrive. -/
def run (q : Query) (D : Database) (parameters : Json.Object) (arriving : List Bindings) :
    List Json :=
  (rows D parameters q.clauses arriving).map fun row =>
    .object (q.returned.map fun (k, x) => (k, row.valueOf x))

end Query

end GraphqlCypher.Cypher
