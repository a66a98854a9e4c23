import GraphqlCypher.Language.Value

/-! Schema documents: the definitions of types, of directives and of the schema
itself, in the order in which they are written. -/
namespace GraphqlCypher.Schema

/-- An argument of a field or of a directive, or a field of an input type. -/
structure InputValue where
  description : Option String := none
  name : String
  type : TypeRef
  initial : Option Value := none
  directives : List Directive := []
deriving Repr, Inhabited

structure Field where
  description : Option String := none
  name : String
  arguments : List InputValue := []
  type : TypeRef
  directives : List Directive := []
deriving Repr, Inhabited

structure ScalarType where
  description : Option String := none
  name : String
  directives : List Directive := []
deriving Repr, Inhabited

structure ObjectType where
  description : Option String := none
  name : String
  interfaces : List String := []
  directives : List Directive := []
  fields : List Field := []
deriving Repr, Inhabited

structure InterfaceType where
  description : Option String := none
  name : String
  interfaces : List String := []
  directives : List Directive := []
  fields : List Field := []
deriving Repr, Inhabited

structure UnionType where
  description : Option String := none
  name : String
  directives : List Directive := []
  members : List String := []
deriving Repr, Inhabited

structure EnumValue where
  description : Option String := none
  name : String
  directives : List Directive := []
deriving Repr, Inhabited

structure EnumType where
  description : Option String := none
  name : String
  directives : List Directive := []
  values : List EnumValue := []
deriving Repr, Inhabited

structure InputType where
  description : Option String := none
  name : String
  directives : List Directive := []
  fields : List InputValue := []
deriving Repr, Inhabited

/-- The definition of a type of any kind. -/
inductive TypeDefinition where
  | scalar (t : ScalarType)
  | object (t : ObjectType)
  | interface (t : InterfaceType)
  | union (t : UnionType)
  | enum (t : EnumType)
  | input (t : InputType)
deriving Repr, Inhabited

/-- Which types are the roots of the three kinds of operations. -/
structure Roots where
  directives : List Directive := []
  query : Option String := none
  mutation : Option String := none
  subscription : Option String := none
deriving Repr, Inhabited

structure DirectiveDefinition where
  description : Option String := none
  name : String
  arguments : List InputValue := []
  repeatable : Bool := false
  locations : List String := []
deriving Repr, Inhabited

inductive Definition where
  | roots (r : Roots)
  | type (t : TypeDefinition)
  | extension (t : TypeDefinition)
  | directive (d : DirectiveDefinition)
deriving Repr, Inhabited

/-- The definitions of a schema, in order. -/
abbrev Document := List Definition

def TypeDefinition.name : TypeDefinition → String
  | .scalar t => t.name
  | .object t => t.name
  | .interface t => t.name
  | .union t => t.name
  | .enum t => t.name
  | .input t => t.name

/-- The type that a definition declares. Extensions declare none. -/
def Definition.typeName? : Definition → Option String
  | .type t => some t.name
  | _ => none

/-- The object type that a definition declares. -/
def Definition.object? : Definition → Option ObjectType
  | .type (.object t) => some t
  | _ => none

namespace Document

/-- The object types, in order. -/
def objects (d : Document) : List ObjectType := d.filterMap Definition.object?

/-- The object types with their places among the definitions. -/
def placedObjects (d : Document) : List (Nat × ObjectType) :=
  d.zipIdx.filterMap fun (definition, i) => definition.object?.map (i, ·)

/-- The names of the types that are declared. -/
def typeNames (d : Document) : List String := d.filterMap Definition.typeName?

end Document

end GraphqlCypher.Schema
