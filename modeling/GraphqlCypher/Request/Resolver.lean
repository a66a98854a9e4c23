import GraphqlCypher.Request.Config
import GraphqlCypher.Schema.Index

/-! Which root fields get a resolver.

A resolver answers a root field by calling a binding. Fields that are generated or
carry a native statement get one, unless there is one already. -/
namespace GraphqlCypher

open Schema

/-- Whether a root field is answered by the database. -/
def Schema.Field.isBound (f : Field) : Bool :=
  hasDirective f.directives Names.cypher || hasDirective f.directives Names.binding

/-- The new resolvers of a document, by root: the roots that are enabled and there,
each with its bound fields that have no resolver yet. -/
def newResolvers (d : Document) (existing : Entries (List String)) (o : ResolverOptions) :
    List (String × List String) :=
  let index := RootIndex.ofDocument d
  let resolvers (name : String) (enabled : Bool) (root : Option RootFields) :
      Option (String × List String) :=
    if enabled then
      (root.bind (·.type? d)).map fun t =>
        let taken := (Entries.get? existing name).getD []
        let bound := t.fields.filter fun f => f.isBound && !taken.contains f.name
        (name, (bound.map Field.name).eraseDups)
    else none
  [resolvers Names.query o.query index.queries,
    resolvers Names.mutation o.mutation index.mutations].filterMap id

/-- The new resolvers of type definitions. -/
def buildResolvers (text : String) (existing : Entries (List String)) (o : ResolverOptions) :
    Except RequestFailure (List (String × List String)) :=
  match Document.read text with
  | .ok d => .ok (newResolvers d existing o)
  | .error e => .error (.core (.schema e))

end GraphqlCypher
