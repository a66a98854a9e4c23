import GraphqlCypher.Schema.Index

/-! What can go wrong between an operation and its answer from the database. -/
namespace GraphqlCypher

open Schema

/-- How many levels below the root a mutation may be nested. -/
def maxNesting : Nat := 5

/-- The causes of a failure: in the schema, while a mutation is compiled, in a supply of
ids, in the database, or in what comes back from it. A supply of ids of one's own may fail
in any of these ways, with a message of its own. -/
inductive Failure where
  | schema (e : SchemaError)
  | nestedTooDeep (levels : Nat)
  | bothOnToOne (field model : String)
  | unknownModel (name : String)
  | unknownMutation (name : String)
  | dataNotObject
  | nestedNotObject (action field : String)
  | invalidArguments (message : String)
  | idGeneration (message : String)
  | connection (message : String)
  | database (code : Option String) (message : String)
  | noRecords
  | notGrouped
  | notRegistered
  | resultShape (message : String)
  /-- The records that were read back contain each other. -/
  | endless
deriving DecidableEq, Repr

namespace Failure

def message : Failure → String
  | .schema e => e.message
  | .nestedTooDeep levels =>
    "Nested mutations are limited to a depth of " ++ toString levels ++ "."
  | .bothOnToOne field model =>
    "Field " ++ field ++ " on model type " ++ model ++
      " is not a to-many relation, so you cannot use both create and connect at the same time."
  | .unknownModel name => "Unknown model type `" ++ name ++ "`."
  | .unknownMutation name => "Mutation `" ++ name ++ "` is not a generated mutation."
  | .dataNotObject =>
    "Invalid arguments: a create mutation expects its `data` argument to be an object"
  | .nestedNotObject action field =>
    "Invalid arguments: nested " ++ action ++ " on field `" ++ field ++
      "` expects an object or a list of objects"
  | .invalidArguments message => "Invalid arguments: " ++ message
  | .idGeneration message => "Failed to generate an id: " ++ message
  | .connection message => "Error in connector: Error opening or closing a session: " ++ message
  | .database code message =>
    "Error in connector: Database error" ++
      (match code with
        | some c => " " ++ c
        | none => "") ++ ": " ++ message
  | .noRecords => "Unexpected result shape: the statement returned no records"
  | .notGrouped => "Unexpected result shape: expected the read back records grouped by model"
  | .notRegistered => "Unexpected result shape: schema registration returned no records"
  | .resultShape message => "Unexpected result shape: " ++ message
  | .endless => "Unexpected result shape: the read back records contain each other"

/-- Whether the arguments of a mutation were refused while it was compiled. -/
def isCompileError : Failure → Bool
  | .nestedTooDeep _ | .bothOnToOne _ _ => true
  | .dataNotObject | .nestedNotObject _ _ | .invalidArguments _ => true
  | _ => false

end Failure

end GraphqlCypher
