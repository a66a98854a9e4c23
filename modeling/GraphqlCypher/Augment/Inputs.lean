import GraphqlCypher.Augment.Arguments

/-! The types that are generated for a model: its orderings, its filter, and the
inputs to create it and to find it. -/
namespace GraphqlCypher.Schema.Scope

/-! ### Orderings and filters -/

/-- `_<Model>Ordering`: up and down by each field with a value of its own. -/
def ordering (S : Scope) (m : ObjectType) : EnumType :=
  { name := Names.orderingType m.name
    values := (S.valueFields m).flatMap fun f =>
      [{ name := f.name ++ "_asc" }, { name := f.name ++ "_desc" }] }

/-- What may be asked of related nodes. -/
def relationFilters : List String :=
  ["", "_not", "_in", "_not_in", "_some", "_none", "_single", "_every"]

/-- How a value may be compared, after equality and membership. -/
def comparisons : List String :=
  ["_lt", "_lte", "_gt", "_gte", "_contains", "_not_contains", "_starts_with", "_not_starts_with",
    "_ends_with", "_not_ends_with"]

def scalarFilters (field type : String) : List InputValue :=
  [.of field (.named type), .of (field ++ "_not") (.named type),
    .of (field ++ "_in") (.listOfNonNull type), .of (field ++ "_not_in") (.listOfNonNull type)] ++
  comparisons.map fun suffix => .of (field ++ suffix) (.named type)

/-- The filters of a field: by the related model's filter if it is a relation, by
comparisons if it is scalar, and none for the internal id and for plain types. -/
def fieldFilters (S : Scope) (f : Field) : List InputValue :=
  if f.isInternalId then []
  else if f.isRelation then
    if S.leadsToModel f then
      relationFilters.map fun suffix =>
        .of (f.name ++ suffix) (.named (Names.filterType f.typeName))
    else []
  else if S.leadsToModel f || S.isPlain f.typeName then []
  else scalarFilters f.name f.typeName

/-- `_<Model>Filter`: all or one of several filters, and the filters of each field. -/
def filter (S : Scope) (m : ObjectType) : InputType :=
  let name := Names.filterType m.name
  { name
    fields := [.of "AND" (.listOfNonNull name), .of "OR" (.listOfNonNull name)] ++
      m.fields.flatMap S.fieldFilters }

/-! ### Nested inputs -/

/-- The inputs by which a relation reaches the model. All of them take `create` and
`connect`; the one they are named for stands first. -/
def nestedInputs (model : String) : List InputType :=
  let create := Names.createInput model
  let connect := Names.whereUniqueInput model
  let many (name type : String) : InputValue := .of name (.listOfNonNull type)
  let one (name type : String) : InputValue := .of name (.named type)
  [{ name := Names.createNestedInput model .many
     fields := [many "create" create, many "connect" connect] },
   { name := Names.createNestedInput model .one
     fields := [one "create" create, one "connect" connect] },
   { name := Names.connectNestedInput model .many
     fields := [many "connect" connect, many "create" create] },
   { name := Names.connectNestedInput model .one
     fields := [one "connect" connect, one "create" create] }]

/-! ### Inputs of the model itself -/

/-- The field of the create input for a field of the model. Locally `id` is left
out, for it is given when the request is made. -/
def createField? (S : Scope) (f : Field) : Option InputValue :=
  if f.isComputed || f.isInternalId || (f.name == Names.id && !S.options.remote) then none
  else if f.isRelation then
    if S.leadsToModel f then
      some (.of f.name (.named (Names.createNestedInput f.typeName (.of f.type.isList))))
    else none
  else if S.leadsToModel f || S.isPlain f.typeName then none
  else some (.of f.name f.type)

/-- `<Model>CreateInput` -/
def createInput (S : Scope) (m : ObjectType) : InputType :=
  { name := Names.createInput m.name, fields := m.fields.filterMap S.createField? }

/-- `<Model>WhereUniqueInput`: every unique field may be given, lists as lists. -/
def whereUniqueInput (m : ObjectType) : InputType :=
  { name := Names.whereUniqueInput m.name
    fields := (m.fields.filter fun f => f.isUnique && !f.isComputed).map fun f =>
      .of f.name (if f.type.isList then .list (.named f.typeName) else .named f.typeName) }

end GraphqlCypher.Schema.Scope
