import GraphqlCypher.Json.Decode

/-! What an augmentation adds. -/
namespace GraphqlCypher

/-- Switches of the augmentation. -/
structure AugmentOptions where
  /-- Generate list queries. -/
  query : Bool := true
  /-- Generate nested inputs and create mutations. -/
  mutation : Bool := true
  /-- Give every model its `id` field. A remote schema always gets it. -/
  idFields : Bool := true
  /-- Make the schema of the database's side, whose mutations carry native
  statements. -/
  remote : Bool := false
deriving DecidableEq, Repr

namespace AugmentOptions

/-- Everything, for the database's side. -/
def forRemote : AugmentOptions := { remote := true }

/-- The options as a record. -/
def shape : Json.RecordShape AugmentOptions :=
  { name := "AugmentOptions"
    defaults := {}
    fields := [
      ("query", .flag fun o b => { o with query := b }),
      ("mutation", .flag fun o b => { o with mutation := b }),
      ("idFields", .flag fun o b => { o with idFields := b }),
      ("isForRemote", .flag fun o b => { o with remote := b })] }

def toJson (o : AugmentOptions) : Json :=
  .object [("query", .bool o.query), ("mutation", .bool o.mutation), ("idFields", .bool o.idFields),
    ("isForRemote", .bool o.remote)]

end AugmentOptions

end GraphqlCypher
