import GraphqlCypher.Proofs.Cypher.Clauses
import GraphqlCypher.Proofs.Entries

/-! Unwinding what stands under some keys of a value.

Such an `UNWIND` reads a parameter, or a variable of the row, and goes down to what stands under
the keys. It hands on one row for each item there: none for `null`, and one for a single value.
A value that has no such key has `null` under it. -/
namespace GraphqlCypher.Cypher

/-- What holds the value that is read. -/
inductive Holder where
  | parameter (name : String)
  /-- A variable of the row. -/
  | binding (name : String)
deriving DecidableEq, Repr

namespace Holder

def text : Holder → String
  | .parameter name => "\x7b" ++ name ++ "\x7d"
  | .binding name => name

def eval (parameters : Json.Object) (row : Bindings) : Holder → Json
  | .parameter name => (Entries.get? parameters name).getD .null
  | .binding name => row.valueOf name

end Holder

structure Descent where
  holder : Holder
  keys : List String
  item : String
deriving DecidableEq, Repr

namespace Descent

def text (u : Descent) : String :=
  "UNWIND " ++ u.holder.text ++ String.join (u.keys.map ("." ++ ·)) ++ " AS " ++ u.item

/-- The items that a row has for a descent. -/
def items (u : Descent) (parameters : Json.Object) (row : Bindings) : List Json :=
  match u.keys.foldl (fun v k => (v.get? k).getD .null) (u.holder.eval parameters row) with
  | .null => []
  | v => v.elements

/-- The rows in the place of a row. -/
def unwind (u : Descent) (parameters : Json.Object) (row : Bindings) : List Bindings :=
  (u.items parameters row).map fun v => row ++ [(u.item, .value v)]

/-- The rows after some descents, one after the other. -/
def rows (parameters : Json.Object) (us : List Descent) (rows : List Bindings) : List Bindings :=
  us.foldl (fun rows u => rows.flatMap (u.unwind parameters)) rows

theorem rows_concat (parameters : Json.Object) (us : List Descent) (u : Descent)
    (l : List Bindings) :
    rows parameters (us ++ [u]) l = (rows parameters us l).flatMap (u.unwind parameters) := by
  rw [rows, List.foldl_append]
  rfl

end Descent

/-- What was bound before stays. -/
theorem Bindings.valueOf_append {row : Bindings} {x : String} (h : x ∈ Entries.keys row)
    (new : Bindings) : Bindings.valueOf (row ++ new) x = row.valueOf x := by
  obtain ⟨b, hb⟩ := Entries.exists_get?_of_mem_keys h
  rw [valueOf, valueOf, Entries.get?_append, hb, Option.some_or]

/-- A variable that was not bound before is bound to the item. -/
theorem Bindings.valueOf_concat {row : Bindings} {x : String} (h : x ∉ Entries.keys row)
    (v : Json) : Bindings.valueOf (row ++ [(x, .value v)]) x = v := by
  rw [valueOf, Entries.get?_append, Entries.get?_eq_none h, Option.none_or, Entries.get?_cons,
    if_pos rfl]
  rfl

end GraphqlCypher.Cypher
