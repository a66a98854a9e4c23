import GraphqlCypher.Augment.Options
import GraphqlCypher.Schema.Index

/-! Models in normal form.

Lists of lists are reduced, and `id` is the first field of every model: it is moved
there if it was declared, in one of the shapes that are allowed, and put there if
it was not. -/
namespace GraphqlCypher.Schema

/-- The shapes of a declared `id` field; on the database's side it may be unmarked. -/
def acceptedIdFields (remote : Bool) : List String :=
  ["id: ID! @unique", "id: ID! @isUnique"] ++ if remote then ["id: ID!"] else []

/-- The `id` field of a model that declares none. -/
def generatedIdField (remote : Bool) : Field :=
  { name := Names.id, type := .nonNull (.named "ID")
    directives := if remote then [] else [Directive.bare Names.unique] }

namespace ObjectType

/-- Puts the first `id` field in front, or a new one. -/
def withIdInFront (remote : Bool) (t : ObjectType) : Except SchemaError ObjectType :=
  match t.fields.find? (·.name == Names.id) with
  | none => .ok { t with fields := generatedIdField remote :: t.fields }
  | some f =>
    if (acceptedIdFields remote).contains (Inline.field f) then
      .ok { t with fields := f :: t.fields.eraseP (·.name == Names.id) }
    else .error (.invalidIdField t.name (Inline.field f))

def reduceNestedLists (t : ObjectType) : ObjectType :=
  { t with fields := t.fields.map fun f => { f with type := f.type.reduceNestedList } }

/-- The normal form of a model. -/
def normalize (o : AugmentOptions) (t : ObjectType) : Except SchemaError ObjectType :=
  let reduced := t.reduceNestedLists
  if o.remote || o.idFields then reduced.withIdInFront o.remote else .ok reduced

end ObjectType

/-- Normalizes a definition if it is a model. -/
def Definition.normalize (o : AugmentOptions) : Definition → Except SchemaError Definition
  | .type (.object t) =>
    if t.isModel then (t.normalize o).map fun t' => .type (.object t') else .ok (.type (.object t))
  | other => .ok other

/-- Normalizes every model; the first that cannot be is the error. -/
def Document.normalize (o : AugmentOptions) (d : Document) : Except SchemaError Document :=
  d.mapM (Definition.normalize o)

end GraphqlCypher.Schema
