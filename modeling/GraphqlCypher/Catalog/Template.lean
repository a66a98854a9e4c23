import GraphqlCypher.Schema.Fields

/-! The operations that a compiled statement has the database execute.

They are written against the schema of the database's side: one creates a bare
node, the other puts edges. -/
namespace GraphqlCypher

open Schema

inductive Template where
  /-- Creates a node: the variables with their types, and what is selected. -/
  | create (mutation : String) (declared : List (String × TypeRef)) (selection : List String)
  /-- Puts edges from a node of the owner to nodes of the related model. -/
  | relate (mutation owner field related : String)
deriving DecidableEq, Repr, Inhabited

namespace Template

/-- Takes every stored property, and selects what is no relation. -/
def createOf (m : ObjectType) : Template :=
  .create (Names.createMutation m.name)
    ((m.fields.filter Field.isStored).map fun f => (f.name, f.type))
    ((m.fields.filter fun f => !f.isRelation && !f.isInternalId).map Field.name)

def relateOf (m : ObjectType) (f : Field) : Template :=
  .relate (Names.relationMutation m.name f.name) m.name f.name f.typeName

/-- The name of the mutation that the template calls. -/
def mutation : Template → String
  | .create mutation _ _ => mutation
  | .relate mutation _ _ _ => mutation

/-- The variables that the template declares, with their types. -/
def declared : Template → List (String × String)
  | .create _ declared _ => declared.map fun (n, t) => (n, t.text)
  | .relate _ owner field related =>
    [("where", Names.whereUniqueInput owner ++ "!"),
      (field, "[" ++ Names.whereUniqueInput related ++ "!]!")]

def text (t : Template) : String :=
  let taken := ", ".intercalate (t.declared.map fun (n, type) => "$" ++ n ++ ": " ++ type)
  let passed := ", ".intercalate (t.declared.map fun (n, _) => n ++ ": $" ++ n)
  let selected := match t with
    | .create _ _ selection => " \x7b " ++ " ".intercalate selection ++ " \x7d"
    | .relate _ _ _ _ => ""
  "mutation " ++ t.mutation ++ "(" ++ taken ++ ") \x7b " ++ t.mutation ++ "(" ++ passed ++ ")" ++
    selected ++ " \x7d"

end Template

end GraphqlCypher
