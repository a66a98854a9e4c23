import GraphqlCypher.Augment.Scope

/-! The arguments of generated list queries and of fields that lead to models.

Both select by the values of the model's fields, filter, and order; where many
nodes may come back they are also paged. -/
namespace GraphqlCypher.Schema

def InputValue.of (name : String) (type : TypeRef) : InputValue := { name, type }

namespace Scope

/-- For each field with a value of its own: that value, and a list of values. -/
def valueArguments (S : Scope) (m : ObjectType) : List InputValue :=
  (S.valueFields m).flatMap fun f =>
    let type := f.type.stripNonNull
    [.of f.name type, .of (f.name ++ "s") (.list type)]

end Scope

/-- The internal id, and the page. -/
def pageArguments : List InputValue :=
  [.of Names.internalId (.named "Int"), .of "_ids" (.list (.named "Int")),
    .of "first" (.named "Int"), .of "offset" (.named "Int")]

def filterArgument (type : TypeRef) : InputValue := .of "filter" type

def orderArgument (model : String) : InputValue :=
  .of "orderBy" (.list (.named (Names.orderingType model)))

namespace Scope

/-- The arguments of a model's list query. -/
def queryArguments (S : Scope) (m : ObjectType) : List InputValue :=
  S.valueArguments m ++
    [filterArgument (.named (Names.filterType m.name)), orderArgument m.name] ++ pageArguments

/-- The arguments of a field that leads to a model. -/
def relationArguments? (S : Scope) (f : Field) : Option (List InputValue) :=
  (S.model? f.typeName).map fun related =>
    let filter := filterArgument (.list (.named (Names.filterType related.name)))
    let order := orderArgument related.name
    S.valueArguments related ++
      if f.type.isList then [filter, order] ++ pageArguments else [order, filter]

/-- A field with fresh arguments if it leads to a model. -/
def rebuildField (S : Scope) (f : Field) : Field :=
  match S.relationArguments? f with
  | some arguments => { f with arguments }
  | none => f

/-- A model with fresh arguments, and with the internal id at its end if it has none. -/
def rebuild (S : Scope) (m : ObjectType) : ObjectType :=
  { m with
    fields := m.fields.map S.rebuildField ++
      if m.fields.any Field.isInternalId then []
      else [{ name := Names.internalId, type := .named "Int" }] }

/-- `Person(name: String, ...): [Person]`, resolved through the binding. -/
def listQuery (S : Scope) (m : ObjectType) : Field :=
  { name := m.name, arguments := S.queryArguments m, type := .list (.named m.name)
    directives := [Directive.bare Names.binding] }

end Scope

end GraphqlCypher.Schema
