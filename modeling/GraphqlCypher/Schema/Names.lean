import GraphqlCypher.Text.UpperCase

/-! The names of what is generated for a model.

What reads a generated schema finds the generated parts by these names again, so
both sides go through this module. -/
namespace GraphqlCypher.Schema

/-- Whether a relation leads to one node or to many. -/
inductive Arity where
  | one
  | many
deriving DecidableEq, Repr

def Arity.of (isList : Bool) : Arity := if isList then .many else .one

def Arity.text : Arity → String
  | .one => "One"
  | .many => "Many"

namespace Names

def createMutation (model : String) : String := "create" ++ model

def relationMutation (model field : String) : String := "add" ++ model ++ Text.capitalize field

def createInput (model : String) : String := model ++ "CreateInput"

def whereUniqueInput (model : String) : String := model ++ "WhereUniqueInput"

def createNestedInput (model : String) (arity : Arity) : String :=
  model ++ "Create" ++ arity.text ++ "Input"

def connectNestedInput (model : String) (arity : Arity) : String :=
  model ++ "Connect" ++ arity.text ++ "Input"

def filterType (model : String) : String := "_" ++ model ++ "Filter"

def orderingType (model : String) : String := "_" ++ model ++ "Ordering"

/-! ### Names with a meaning of their own -/

def query : String := "Query"
def mutation : String := "Mutation"
def subscription : String := "Subscription"

/-- The field by which every model is known. -/
def id : String := "id"

/-- The field for the number that the database gives a node. It is never stored. -/
def internalId : String := "_id"

/-- The directive on the types whose values are nodes. -/
def model : String := "model"

/-- The directive on the fields that are edges. -/
def relation : String := "relation"

def unique : String := "unique"
def isUnique : String := "isUnique"

/-- The directive that holds a native statement. -/
def cypher : String := "cypher"

/-- The argument of that directive. -/
def statement : String := "statement"

/-- The directive on the generated fields that are resolved through the binding. -/
def binding : String := "GraphBinding"

end Names

end GraphqlCypher.Schema
