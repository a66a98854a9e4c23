import GraphqlCypher.Catalog.Basic

/-! Reading back what a mutation touched.

For each model there is one lookup: a node is found if it agrees with a staged
record in some unique field, or if the record has no value for it. Each lookup
carries along what the ones before it collected, and at the end everything is
returned by model. -/
namespace GraphqlCypher

/-- The models to look up, each with its unique fields. -/
abbrev ReadBack := List (String × List String)

namespace ReadBack

/-- The variable that holds the nodes found for a model. -/
def collected (model : String) : String := "ALL_" ++ model

/-- When a node is found for a record. -/
def condition (model : String) (keys : List String) : String :=
  " OR ".intercalate (keys.map fun k =>
    "(" ++ model ++ "Node." ++ k ++ " = _" ++ model ++ "." ++ k ++ " OR _" ++ model ++ "." ++ k ++
      " IS NULL)")

/-- The lookup of a model, after those of the models before it. -/
def lookup (earlier : List String) (model : String) (keys : List String) : String :=
  "\nUNWIND \x7b" ++ model ++ "\x7d AS _" ++ model ++ "\nMATCH (" ++ model ++ "Node: " ++ model ++
    ") WHERE " ++ condition model keys ++ "\nWITH COLLECT(DISTINCT properties(" ++ model ++
    "Node)) AS " ++ collected model ++
    String.join (earlier.map fun m => ", " ++ collected m) ++ "\n"

def lookups (earlier : List String) : ReadBack → List String
  | [] => []
  | (model, keys) :: rest => lookup earlier model keys :: lookups (earlier ++ [model]) rest

/-- Everything that was collected, by model. -/
def answer (models : List String) : String :=
  "RETURN \x7b\n" ++ ",\n".intercalate (models.map fun m => "  " ++ m ++ ": " ++ collected m) ++
    "\n\x7d\n"

def text (r : ReadBack) : String :=
  "\n".intercalate (lookups [] r ++ [answer (r.map Prod.fst)])

end ReadBack

end GraphqlCypher
