import GraphqlCypher.Entries
import GraphqlCypher.Language.SchemaReader
import GraphqlCypher.Schema.Fields

/-! Finding types and root fields by name.

`TypeIndex` sorts the object types of a document into models and plain types and
keeps the place of each; `RootIndex` holds the fields of the two root types. They
record places, not definitions, so they stay good while definitions are edited in
place and added at the end. -/
namespace GraphqlCypher.Schema

/-- Why a schema cannot be used. -/
inductive SchemaError where
  | unreadable (place : Position)
  | invalidIdField (model : String) (found : String)
  | duplicateModel (name : String)
deriving DecidableEq, Repr

def SchemaError.message : SchemaError → String
  | .unreadable p =>
    "Error parsing type definitions: schema parse error: Parse error at " ++ p.text
  | .invalidIdField model found =>
    "id field on type " ++ model ++ " has invalid format '" ++ found ++
      "' Required format: 'id: ID!'"
  | .duplicateModel name => "Model type " ++ name ++ " is defined more than once."

/-- Reads type definitions. -/
def Document.read (text : String) : Except SchemaError Document :=
  match Document.parse text with
  | .ok d => .ok d
  | .error p => .error (.unreadable p)

namespace Document

/-- The object type at a place. -/
def objectAt? (d : Document) (i : Nat) : Option ObjectType := d[i]?.bind Definition.object?

end Document

/-! ### Types -/

/-- The places of the models and of the plain object types, by name and in order. -/
structure TypeIndex where
  models : Entries Nat := []
  plain : Entries Nat := []
deriving DecidableEq, Repr

namespace TypeIndex

def isModel (x : TypeIndex) (name : String) : Bool := x.models.contains name

def isPlain (x : TypeIndex) (name : String) : Bool := x.plain.contains name

/-- The root types are neither models nor plain, unless they are marked as models. -/
def isRoot (name : String) : Bool := name == Names.query || name == Names.mutation

/-- Adds an object type. Of plain types with one name the first counts; a second
model of one name is refused. -/
def add (x : TypeIndex) (placed : Nat × ObjectType) : Except SchemaError TypeIndex :=
  let (i, t) := placed
  if t.isModel then
    if x.isModel t.name then .error (.duplicateModel t.name)
    else .ok { x with models := x.models ++ [(t.name, i)] }
  else if isRoot t.name || x.isPlain t.name then .ok x
  else .ok { x with plain := x.plain ++ [(t.name, i)] }

def ofDocument (d : Document) : Except SchemaError TypeIndex :=
  d.placedObjects.foldlM add {}

/-- A model by name. -/
def model? (x : TypeIndex) (d : Document) (name : String) : Option ObjectType :=
  (Entries.get? x.models name).bind d.objectAt?

/-- The models with their places, in order. -/
def modelTypes (x : TypeIndex) (d : Document) : List (Nat × ObjectType) :=
  x.models.filterMap fun (_, i) => (d.objectAt? i).map (i, ·)

end TypeIndex

/-! ### Root fields -/

/-- The place of a root type, and the places of its fields. -/
structure RootFields where
  place : Nat
  fields : Entries Nat
deriving DecidableEq, Repr

namespace RootFields

/-- The last object type with the name is the root. A field name that is repeated
stands for its last field. -/
def find? (d : Document) (root : String) : Option RootFields :=
  (d.placedObjects.filter (·.2.name == root)).getLast?.map fun (i, t) =>
    ⟨i, Entries.ofList (t.fields.zipIdx.map fun (f, j) => (f.name, j))⟩

def has (r : RootFields) (name : String) : Bool := r.fields.contains name

def type? (r : RootFields) (d : Document) : Option ObjectType := d.objectAt? r.place

def field? (r : RootFields) (d : Document) (name : String) : Option Field :=
  (Entries.get? r.fields name).bind fun j => (r.type? d).bind (·.fields[j]?)

end RootFields

/-- The two root types of a document, as far as it has them. -/
structure RootIndex where
  queries : Option RootFields
  mutations : Option RootFields
deriving DecidableEq, Repr

def RootIndex.ofDocument (d : Document) : RootIndex :=
  ⟨RootFields.find? d Names.query, RootFields.find? d Names.mutation⟩

end GraphqlCypher.Schema
