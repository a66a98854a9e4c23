import GraphqlCypher.Catalog.Failure
import GraphqlCypher.Catalog.Model
import GraphqlCypher.Catalog.Template

/-! The catalog of a schema: its models, the mutations that can be compiled for
them, and which of those the schema marks as generated.

It is made once for a schema and only looked up after that. -/
namespace GraphqlCypher

open Schema

/-- What a mutation does. -/
inductive MutationAction where
  | create
  | add
deriving DecidableEq, Repr

def MutationAction.text : MutationAction → String
  | .create => "create"
  | .add => "add"

/-- A mutation as the database's side knows it. -/
structure MutationInfo where
  model : String
  template : Template
deriving DecidableEq, Repr, Inhabited

def MutationInfo.action (m : MutationInfo) : MutationAction :=
  match m.template with
  | .create _ _ _ => .create
  | .relate _ _ _ _ => .add

structure Catalog where
  /-- The mutations that are marked as resolved by the binding. -/
  generated : List String
  models : Entries ModelInfo
  mutations : Entries MutationInfo
deriving DecidableEq, Repr, Inhabited

namespace Catalog

/-- The mutation fields with the binding's mark. -/
def generatedNames (d : Document) : List String :=
  match (RootIndex.ofDocument d).mutations.bind (·.type? d) with
  | none => []
  | some root =>
    (root.fields.filter fun f => hasDirective f.directives Names.binding).map Field.name

/-- The mutations of a model: its create mutation, if that is generated, and one for
each relation. -/
def modelMutations (generated : List String) (m : ObjectType) : List (String × MutationInfo) :=
  let create := Names.createMutation m.name
  (if generated.contains create then [(create, ⟨m.name, Template.createOf m⟩)] else []) ++
    (m.fields.filter Field.isRelation).map fun f =>
      (Names.relationMutation m.name f.name, ⟨m.name, Template.relateOf m f⟩)

def ofDocument (d : Document) : Except SchemaError Catalog := do
  let index ← TypeIndex.ofDocument d
  let generated := generatedNames d
  let models := (index.modelTypes d).map Prod.snd
  return {
    generated
    models := Entries.ofList (models.map fun m => (m.name, ModelInfo.ofModel m))
    mutations := Entries.ofList (models.flatMap (modelMutations generated)) }

/-- The catalog of type definitions. -/
def ofText (text : String) : Except SchemaError Catalog := do ofDocument (← Document.read text)

def isGenerated (c : Catalog) (mutation : String) : Bool := c.generated.contains mutation

def model (c : Catalog) (name : String) : Except Failure ModelInfo :=
  match Entries.get? c.models name with
  | some m => .ok m
  | none => .error (.unknownModel name)

def mutation (c : Catalog) (name : String) : Except Failure MutationInfo :=
  match Entries.get? c.mutations name with
  | some m => .ok m
  | none => .error (.unknownMutation name)

end Catalog

end GraphqlCypher
