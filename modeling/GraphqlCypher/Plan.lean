import GraphqlCypher.Mutation.Compiled
import GraphqlCypher.Mutation.Reconcile

/-! Plans: what an operation becomes before it reaches the database, and what its
records become afterwards.

Queries are passed on as they are, generated mutations are compiled, and all other
mutations are left to the database. -/
namespace GraphqlCypher

/-- A row of a result. -/
abbrev Record := List Json

inductive Plan where
  | query (s : Statement)
  /-- A mutation that the database knows itself. -/
  | passthrough (field : String) (s : Statement)
  | mutation (c : CompiledMutation)
deriving Repr

namespace Plan

def ofQuery (operation : String) (values : Json.Object) : Plan :=
  .query (Statement.query operation values)

/-- With the plan comes the number of ids drawn by then. -/
def ofMutation (c : Catalog) (operation field : String) (values : Json.Object)
    (ids : Option IdGenerator) (drawn : Nat) : Except Failure Plan × Nat :=
  if c.isGenerated field then
    let (outcome, drawn) := c.compile field values ids drawn
    (outcome.map Plan.mutation, drawn)
  else (.ok (.passthrough field (Statement.execute operation values)), drawn)

def statement : Plan → Statement
  | .query s => s
  | .passthrough _ s => s
  | .mutation c => c.statement

/-- An object with one field, whose value is looked up in a result. -/
def singleField (field : String) (result : Json) : Json :=
  .object [(field, (result.get? field).getD .null)]

/-- The first column of the first row. -/
def firstValue? (records : List Record) : Option Json := records.head?.bind List.head?

/-- The data of a response. -/
def shape (c : Catalog) (p : Plan) (records : List Record) : Except Failure Json :=
  match firstValue? records with
  | none => .error .noRecords
  | some first =>
    match p with
    | .query _ => .ok first
    | .passthrough field _ => .ok (singleField field first)
    | .mutation (.add m) => .ok (singleField m.mutation first)
    | .mutation (.create m) =>
      (c.reconcile m.model m.arguments first).map fun v => .object [(m.mutation, v)]

end Plan

end GraphqlCypher
