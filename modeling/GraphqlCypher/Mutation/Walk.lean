import GraphqlCypher.Mutation.Arguments
import GraphqlCypher.Mutation.Group

/-! The walk over the nested arguments of a create mutation.

The walk visits the root object and every object nested under a relation, owners
first, in the order of the keys, `create` before `connect`, and lists from their
start. At each visit it notes the object; at the first object of a path it also
notes the group of that path. New objects get their ids on the way.

Nesting is bounded, so the walk recurses on the number of levels that are left. -/
namespace GraphqlCypher

/-- One of the elements of a step, by its number among all that the step supplies. -/
structure Pick where
  step : Step
  index : Nat
deriving DecidableEq, Repr

/-- An object that was visited: where it stands, its model, and its arguments when it
was reached, its id included. -/
structure Visit where
  address : List Pick
  model : String
  arguments : Json.Object
deriving Repr

/-- The path that was followed to an object. -/
def Visit.path (v : Visit) : List Step := v.address.map Pick.step

/-- What a walk has noted so far. -/
structure WalkState where
  drawn : Nat
  groups : List Group := []
  visits : List Visit := []

/-- A walk may fail, and ids that were drawn stay drawn. -/
abbrev WalkM := ExceptT Failure (StateM WalkState)

/-- What a walk is about: the schema, the root model, and where ids come from. -/
structure Tour where
  catalog : Catalog
  root : String
  ids : Option IdGenerator

namespace Tour

variable (T : Tour)

/-- The arguments of a new node, with an id. -/
def identify (arguments : Json.Object) : WalkM Json.Object := do
  let s ← get
  let (arguments, drawn) ← ExceptT.mk (pure (withId T.ids s.drawn arguments))
  set { s with drawn }
  return arguments

/-- Notes a visit. -/
def note (address : List Pick) (model : String) (arguments : Json.Object) : WalkM Unit :=
  modify fun s => { s with visits := s.visits ++ [⟨address, model, arguments⟩] }

/-- The group of a path, for an owner whose arguments have the given keys. -/
def group (above : List Step) (owner : String) (supplied : List String) (step : Step) :
    Except Failure Group := do
  let ownerInfo ← T.catalog.model owner
  let target ← T.catalog.model step.related
  let relation ← T.catalog.mutation (Schema.Names.relationMutation owner step.field)
  let creation ← match step.action with
    | .create => do
      let info ← T.catalog.mutation (Schema.Names.createMutation step.related)
      pure (some info.template)
    | .connect => pure none
  let element := elementAt T.root (above ++ [step])
  return {
    root := T.root, above, step
    owner := if above.isEmpty then rootBindings ownerInfo.unique supplied
      else elementBindings ownerInfo.unique (elementAt T.root above)
    target := elementBindings target.unique element
    relation := relation.template
    creation }

/-- Notes the group of a path unless it was noted before. -/
def noteGroup (above : List Step) (owner : String) (supplied : List String) (step : Step) :
    WalkM Unit := do
  let s ← get
  unless s.groups.any (·.path == above ++ [step]) do
    let g ← ExceptT.mk (pure (T.group above owner supplied step))
    modify fun s => { s with groups := s.groups ++ [g] }

/-- Goes on from an object of a model that stands at an address. -/
abbrev Onward := List Pick → String → Json.Object → WalkM Json.Object

variable (onward : Onward)

/-- One element of a step, with its number. -/
def element (above : List Pick) (step : Step) : Json × Nat → WalkM Json
  | (.object arguments, i) => do
    let arguments ← match step.action with
      | .create => T.identify arguments
      | .connect => pure arguments
    return .object (← onward (above ++ [⟨step, i⟩]) step.related arguments)
  | _ => throw (.nestedNotObject step.action.text step.field)

/-- All that one action of a relation supplies. -/
def elements (above : List Pick) (owner : String) (supplied : List String) (step : Step)
    (v : Json) : WalkM Json := do
  T.noteGroup (above.map Pick.step) owner supplied step
  match v with
  | .array items => return .array (← items.zipIdx.mapM (element T onward above step))
  | v => element T onward above step (v, 0)

/-- One action of a relation, if it supplies anything. -/
def action (above : List Pick) (owner : String) (supplied : List String) (step : Step)
    (nested : Json.Object) : WalkM Json.Object := do
  match Json.given? (Entries.get? nested step.action.text) with
  | none => return nested
  | some v =>
    let v ← elements T onward above owner supplied step v
    return Entries.insert nested step.action.text v

/-- A relation of an object. Only a relation to many may both create and connect. -/
def relation (above : List Pick) (owner : String) (info : ModelInfo) (supplied : List String)
    (field related : String) (nested : Json.Object) : WalkM Json.Object := do
  let gives (a : NestedAction) : Bool := (Json.given? (Entries.get? nested a.text)).isSome
  if gives .create && gives .connect && !info.isToMany field then
    throw (.bothOnToOne field owner)
  let nested ← action T onward above owner supplied ⟨field, .create, related⟩ nested
  action T onward above owner supplied ⟨field, .connect, related⟩ nested

/-- An argument of an object: a relation if it is one, and else left alone. -/
def argument (above : List Pick) (owner : String) (info : ModelInfo) (supplied : List String)
    (entry : String × Json) : WalkM (String × Json) := do
  match info.related? entry.1, entry.2 with
  | some related, .object nested =>
    let written ← relation T onward above owner info supplied entry.1 related nested
    return (entry.1, .object written)
  | _, _ => return entry

/-- An object, its relations included. -/
def visit (address : List Pick) (model : String) (arguments : Json.Object) :
    WalkM Json.Object := do
  let info ← ExceptT.mk (pure (T.catalog.model model))
  note address model arguments
  arguments.mapM (argument T onward address model info (Entries.keys arguments))

end Tour

/-- Walks over an object with so many levels left, its own among them. -/
def Tour.walk (T : Tour) : Nat → Tour.Onward
  | 0 => fun _ _ _ => throw (.nestedTooDeep maxNesting)
  | levels + 1 => T.visit (T.walk levels)

/-! ### Staged records -/

/-- The unique fields of a visited object, those without a value being null. -/
def stagedRecord (keys : List String) (arguments : Json.Object) : Json :=
  .object (Entries.ofList (keys.map fun k => (k, (Entries.get? arguments k).getD .null)))

/-- Adds a record to those of its model. -/
def stage (staged : Entries (List Json)) (model : String) (record : Json) : Entries (List Json) :=
  Entries.insert staged model ((Entries.get? staged model).getD [] ++ [record])

/-- The records of all visited objects, by model and in the order of the visits. -/
def stagedRecords (c : Catalog) (visits : List Visit) : Entries (List Json) :=
  visits.foldl (fun staged v =>
    let keys := ((Entries.get? c.models v.model).map ModelInfo.unique).getD []
    stage staged v.model (stagedRecord keys v.arguments)) []

end GraphqlCypher
