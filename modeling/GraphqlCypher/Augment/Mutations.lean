import GraphqlCypher.Augment.Arguments
import GraphqlCypher.Augment.NativeStatement

/-! The mutations that are generated for a model.

A local schema has one mutation a model, which creates it and all that is nested in
its input. A remote schema has the steps of that: one mutation that creates a bare
node, and one for each relation that puts edges. -/
namespace GraphqlCypher.Schema.Scope

/-- `create<Model>(data: <Model>CreateInput!): <Model>`, resolved through the binding. -/
def localCreate (m : ObjectType) : Field :=
  { name := Names.createMutation m.name
    arguments := [.of "data" (.nonNull (.named (Names.createInput m.name)))]
    type := .named m.name
    directives := [Directive.bare Names.binding] }

/-- A field that is answered by a native statement. -/
def nativeField (name : String) (arguments : List InputValue) (type statement : String) : Field :=
  { name, arguments, type := .named type
    directives := [Directive.withString Names.cypher Names.statement statement] }

/-- One argument for each stored property. -/
def remoteCreate (m : ObjectType) : Field :=
  nativeField (Names.createMutation m.name)
    ((m.fields.filter Field.isStored).map fun f => .of f.name f.type)
    m.name (CreateNode.ofModel m).text

/-- `add<Model><Field>(where: ..., <field>: ...): Boolean`, if the relation leads to a
model and has a statement. -/
def relationMutation? (S : Scope) (m : ObjectType) (f : Field) : Option Field :=
  (S.model? f.typeName).bind fun related =>
    (RelateNodes.ofRelation? m f related (f.relationInfo?.getD {})).map fun statement =>
      nativeField (Names.relationMutation m.name f.name)
        [.of "where" (.nonNull (.named (Names.whereUniqueInput m.name))),
         .of f.name (.nonNull (.listOfNonNull (Names.whereUniqueInput related.name)))]
        "Boolean" statement.text

/-- The mutations of a model. -/
def mutations (S : Scope) (m : ObjectType) : List Field :=
  if S.options.remote then
    remoteCreate m :: (m.fields.filter Field.isRelation).filterMap (S.relationMutation? m)
  else [localCreate m]

end GraphqlCypher.Schema.Scope
