import GraphqlCypher.Schema.Fields

/-! The native statements that a remote schema carries.

Each is a value with its text beside it, so that what a statement does can be said
without taking its text apart. -/
namespace GraphqlCypher.Schema

/-- Creates a node with properties, each from the parameter of its name. -/
structure CreateNode where
  model : String
  properties : List String
deriving DecidableEq, Repr

namespace CreateNode

def ofModel (m : ObjectType) : CreateNode :=
  { model := m.name, properties := (m.fields.filter Field.isStored).map Field.name }

def text (s : CreateNode) : String :=
  "CREATE (n: " ++ s.model ++ " \x7b " ++
    ", ".intercalate (s.properties.map fun p => p ++ ": \x7b" ++ p ++ "\x7d") ++ " \x7d) RETURN n"

end CreateNode

/-- Finds a node by the parameter `where` and others by the parameter of a relation
field, and puts an edge between the first and each of the others. -/
structure RelateNodes where
  model : String
  field : String
  related : String
  /-- The name of the edge. -/
  edge : String
  /-- Whether the edge leads from the first node to the others. -/
  outward : Bool
  /-- The fields by which the first node is found. -/
  ownerKeys : List String
  /-- The fields by which the others are found. -/
  targetKeys : List String
deriving DecidableEq, Repr

/-- The fields marked unique, with `id` in front if it is not marked. -/
def uniqueMarked (m : ObjectType) : List String :=
  let marked := (m.fields.filter Field.hasUniqueMark).map Field.name
  if marked.contains Names.id then marked else Names.id :: marked

namespace RelateNodes

/-- A relation without a name, or with a direction other than the two, has no
statement. -/
def ofRelation? (m : ObjectType) (f : Field) (related : ObjectType) (info : RelationInfo) :
    Option RelateNodes :=
  let statement (edge : String) (outward : Bool) : RelateNodes :=
    { model := m.name, field := f.name, related := related.name, edge, outward
      ownerKeys := uniqueMarked m, targetKeys := uniqueMarked related }
  match info.name, info.direction with
  | some edge, some .outward => some (statement edge true)
  | some edge, some .inward => some (statement edge false)
  | _, _ => none

/-- One of the fields of a node has the value that a source gives for it. -/
def anyEqual (node : String) (keys : List String) (source : String) : String :=
  " OR ".intercalate (keys.map fun k => node ++ "." ++ k ++ " = " ++ source ++ "." ++ k)

def text (s : RelateNodes) : String :=
  let node := "_" ++ s.model ++ "Node"
  let element := "_" ++ s.field
  let pattern :=
    if s.outward then "(root)-[relation: " ++ s.edge ++ "]->(" ++ node ++ ")"
    else "(root)<-[relation: " ++ s.edge ++ "]-(" ++ node ++ ")"
  "MATCH (root: " ++ s.model ++ ") WHERE " ++ anyEqual "root" s.ownerKeys "\x7bwhere\x7d" ++
    " UNWIND \x7b" ++ s.field ++ "\x7d AS " ++ element ++
    " MATCH (" ++ node ++ ": " ++ s.related ++ ") WHERE " ++ anyEqual node s.targetKeys element ++
    " CREATE UNIQUE " ++ pattern ++ " RETURN true"

end RelateNodes

end GraphqlCypher.Schema
