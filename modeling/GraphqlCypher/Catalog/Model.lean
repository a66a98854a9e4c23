import GraphqlCypher.Entries
import GraphqlCypher.Schema.Fields

/-! What is known about a model when statements are made for it. -/
namespace GraphqlCypher

open Schema

/-- The relations and the stored properties of a model. -/
structure ModelInfo where
  /-- Relation fields, each with the type it leads to. -/
  relations : Entries String
  /-- Relation fields that are lists. -/
  toMany : List String
  /-- Stored properties, each with its named type. -/
  properties : Entries String
  /-- Properties by which a node can be found, `id` always among them. -/
  unique : List String
deriving DecidableEq, Repr, Inhabited

namespace ModelInfo

/-- Puts `id` in front of names that lack it. -/
def withId (names : List String) : List String :=
  if names.contains Names.id then names else Names.id :: names

def ofModel (m : ObjectType) : ModelInfo :=
  let relations := m.fields.filter Field.isRelation
  let stored := m.fields.filter Field.isStored
  { relations := Entries.ofList (relations.map fun f => (f.name, f.typeName))
    toMany := ((relations.filter (·.type.isList)).map Field.name).eraseDups
    properties := Entries.ofList (stored.map fun f => (f.name, f.typeName))
    unique := withId ((stored.filter Field.isUnique).map Field.name) }

/-- The type that a relation field leads to. -/
def related? (m : ModelInfo) (field : String) : Option String := Entries.get? m.relations field

def isToMany (m : ModelInfo) (field : String) : Bool := m.toMany.contains field

theorem id_mem_withId (names : List String) : Names.id ∈ withId names := by
  unfold withId
  split
  · next h => simpa using h
  · simp

/-- Every model can be found by its id. -/
theorem id_mem_unique (m : ObjectType) : Names.id ∈ (ofModel m).unique := id_mem_withId _

end ModelInfo

end GraphqlCypher
