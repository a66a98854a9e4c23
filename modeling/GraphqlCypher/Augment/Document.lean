import GraphqlCypher.Augment.Inputs
import GraphqlCypher.Augment.Mutations
import GraphqlCypher.Augment.Normalize
import GraphqlCypher.Augment.Scaffold
import GraphqlCypher.Language.SchemaPrinter

/-! Augmenting a schema.

`Document.augment` scaffolds the roots, normalizes the models, and adds what is
generated for each model. Nothing that is declared is replaced: a generated type or
root field whose name is taken is left out, and of two with one name the first
stays. A document without models is left as it is. -/
namespace GraphqlCypher.Schema

/-- What the models contribute. -/
structure Additions where
  queries : List Field
  mutations : List Field
  types : List TypeDefinition

namespace Scope

/-- Whether a root is there and has a field of the name already. -/
def declares (root : Option RootFields) (name : String) : Bool :=
  (root.map (·.has name)).getD false

/-- A model whose name is a declared mutation gets no mutations and no inputs. -/
def generatesMutations (S : Scope) (m : ObjectType) : Bool :=
  S.options.mutation && S.roots.mutations.isSome && !declares S.roots.mutations m.name

/-- The types generated for a model. -/
def types (S : Scope) (m : ObjectType) : List TypeDefinition :=
  (if S.options.remote then [] else [.enum (S.ordering m), .input (S.filter m)]) ++
    if S.generatesMutations m then
      (nestedInputs m.name).map TypeDefinition.input ++
        [.input (S.createInput m), .input (whereUniqueInput m)]
    else []

/-- The fields of a root that are new: none if the root is missing. -/
def newFields (root : Option RootFields) (fields : List Field) : List Field :=
  match root with
  | none => []
  | some r => freshBy Field.name r.fields.keys fields

/-- Everything that is added to the document. -/
def additions (S : Scope) : Additions :=
  { queries := newFields S.roots.queries
      (if S.options.remote || !S.options.query then [] else S.models.map S.listQuery)
    mutations := newFields S.roots.mutations
      ((S.models.filter S.generatesMutations).flatMap S.mutations)
    types := freshBy TypeDefinition.name S.document.typeNames (S.models.flatMap S.types) }

end Scope

namespace Definition

def mapObject (f : ObjectType → ObjectType) : Definition → Definition
  | .type (.object t) => .type (.object (f t))
  | other => other

def appendFields (fields : List Field) : Definition → Definition :=
  mapObject fun t => { t with fields := t.fields ++ fields }

end Definition

namespace Document

/-- Rebuilds the models of a local schema. -/
def rebuildModels (S : Scope) (d : Document) : Document :=
  if S.options.remote then d
  else d.map (Definition.mapObject fun t => if t.isModel then S.rebuild t else t)

/-- Adds fields at the end of a root type. -/
def extendRoot (root : Option RootFields) (fields : List Field) (d : Document) : Document :=
  match root with
  | none => d
  | some r => d.modify r.place (Definition.appendFields fields)

/-- Puts the additions into the document. -/
def extend (S : Scope) (d : Document) : Document :=
  let new := S.additions
  extendRoot S.roots.mutations new.mutations
    (extendRoot S.roots.queries new.queries (rebuildModels S d)) ++
    new.types.map Definition.type

/-- The document with everything that its models ask for. -/
def augment (o : AugmentOptions) (d : Document) : Except SchemaError Document := do
  let index ← TypeIndex.ofDocument d
  if index.models.isEmpty then return d
  let prepared ← (d.scaffold o).normalize o
  return prepared.extend ⟨prepared, index, RootIndex.ofDocument prepared, o⟩

/-- Reads type definitions, augments them and writes them. -/
def augmentText (o : AugmentOptions) (text : String) : Except SchemaError String := do
  let d ← read text
  return (← d.augment o).text

end Document

end GraphqlCypher.Schema
