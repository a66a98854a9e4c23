import GraphqlCypher.Catalog.Failure
import GraphqlCypher.Json.Decode
import GraphqlCypher.Language.Executable

/-! What can go wrong while a request is handled. -/
namespace GraphqlCypher

def OperationKind.rootType : OperationKind → String
  | .query => Schema.Names.query
  | .mutation => Schema.Names.mutation
  | .subscription => Schema.Names.subscription

inductive RequestFailure where
  /-- Between the operation and the database. -/
  | core (f : Failure)
  /-- The operation cannot be read. -/
  | unreadable (place : Position)
  | noOperation
  | noField (kind : OperationKind)
  | unknownArgument (name field : String)
  | dataNotObject (found : Json)
  | configuration (e : Json.DecodeError)
  /-- A subscription cannot be planned. -/
  | subscriptionPlanned
  /-- A field of the subscription root cannot be resolved. -/
  | subscriptionResolved
  | notRoot (type : String)
  | missingBinding (key : String)
  | missingCallable (root field : String)
deriving Repr

namespace RequestFailure

def message : RequestFailure → String
  | .core f => f.message
  | .unreadable p => "Error parsing GraphQL query: query parse error: Parse error at " ++ p.text
  | .noOperation => "Document contained no operations."
  | .noField kind => "The " ++ kind.keyword ++ " selects no field."
  | .unknownArgument name field => "Unknown argument `" ++ name ++ "` on field `" ++ field ++ "`."
  | .dataNotObject found => "Expected response data to be an object, got " ++ found.compact ++ "."
  | .configuration e => "Error parsing configuration: " ++ e.message
  | .subscriptionPlanned =>
    "Subscriptions not yet supported: " ++
      "request type `subscription` cannot be resolved by the database"
  | .subscriptionResolved =>
    "Subscriptions not yet supported: operations on the Subscription type cannot be resolved"
  | .notRoot type => "Parent type not yet supported: `" ++ type ++ "` is not a root operation type"
  | .missingBinding key => "No binding registered under `" ++ key ++ "` on the request context."
  | .missingCallable root field =>
    "The binding has no " ++ root ++ " field named `" ++ field ++ "`."

end RequestFailure

end GraphqlCypher
