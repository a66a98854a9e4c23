import GraphqlCypher.Mutation.ReadBack
import GraphqlCypher.Mutation.Walk
import GraphqlCypher.Statement

/-! Compiled mutations.

A create mutation becomes one statement: the call that creates the root, a group for
each path of the nested arguments, and the read-back of everything that was touched.
A mutation that only puts edges becomes one call. -/
namespace GraphqlCypher

/-- The parameter that carries the arguments of a create mutation. -/
def argumentsParameter : String := "variables"

/-- A compiled create mutation. -/
structure CompiledCreate where
  mutation : String
  template : Template
  model : String
  /-- The arguments with all ids. -/
  arguments : Json.Object
  /-- The root properties, and which of them were supplied. -/
  properties : List KeyBinding
  groups : List Group
  /-- The objects that were visited, in order. -/
  visits : List Visit
  /-- The records to read back, by model. -/
  staged : Entries (List Json)
  readBack : ReadBack
deriving Repr

namespace CompiledCreate

def rootCall (c : CompiledCreate) : String :=
  let result := c.mutation ++ "Result"
  "CALL graphql.execute('" ++ c.template.text ++ "', \x7b " ++ bindingsText c.properties ++
    " \x7d) YIELD result AS " ++ result ++ " WITH " ++ result ++ " AS " ++ result

def text (c : CompiledCreate) : String :=
  "\n".intercalate (c.rootCall :: c.groups.map Group.text) ++ c.readBack.text

/-- The arguments, and the staged records under the names of their models. -/
def parameters (c : CompiledCreate) : Json.Object :=
  Entries.insertAll [(argumentsParameter, .object c.arguments)]
    (c.staged.map fun (model, records) => (model, .array records))

end CompiledCreate

/-- A compiled mutation that puts edges. -/
structure CompiledAdd where
  mutation : String
  template : Template
  model : String
  arguments : Json.Object
deriving Repr

namespace CompiledAdd

def text (c : CompiledAdd) : String :=
  "CALL graphql.execute('" ++ c.template.text ++ "', \x7b " ++
    Statement.parameterMap (Entries.keys c.arguments) ++ " \x7d) YIELD result AS " ++ c.mutation ++
    "Result\nRETURN \x7b " ++ c.mutation ++ ": " ++ c.mutation ++ "Result \x7d"

end CompiledAdd

inductive CompiledMutation where
  | create (c : CompiledCreate)
  | add (c : CompiledAdd)
deriving Repr

namespace CompiledMutation

def name : CompiledMutation → String
  | .create c => c.mutation
  | .add c => c.mutation

def action : CompiledMutation → MutationAction
  | .create _ => .create
  | .add _ => .add

def model : CompiledMutation → String
  | .create c => c.model
  | .add c => c.model

def arguments : CompiledMutation → Json.Object
  | .create c => c.arguments
  | .add c => c.arguments

def statement : CompiledMutation → Statement
  | .create c => ⟨c.text, c.parameters⟩
  | .add c => ⟨c.text, c.arguments⟩

end CompiledMutation

/-! ### Compiling -/

namespace Catalog

/-- Walks over the arguments of a create mutation. -/
def compileRoot (c : Catalog) (name : String) (info : MutationInfo) (data : Json.Object)
    (ids : Option IdGenerator) : WalkM CompiledCreate := do
  let tour : Tour := ⟨c, info.model, ids⟩
  let data ← tour.identify data
  let root ← ExceptT.mk (pure (c.model info.model))
  let properties := rootBindings (Entries.keys root.properties) (Entries.keys data)
  let arguments ← tour.walk (maxNesting + 1) [] info.model data
  let s ← get
  let staged := stagedRecords c s.visits
  let readBack ← ExceptT.mk (pure (staged.mapM fun (model, _) =>
    (c.model model).map fun m => (model, m.unique)))
  return {
    mutation := name, template := info.template, model := info.model, arguments, properties
    groups := s.groups, visits := s.visits, staged, readBack }

/-- Compiles a generated mutation for variables. With the outcome comes the number of
ids drawn by then, from the number drawn before. -/
def compile (c : Catalog) (name : String) (values : Json.Object) (ids : Option IdGenerator)
    (drawn : Nat) : Except Failure CompiledMutation × Nat :=
  if !c.isGenerated name then (.error (.unknownMutation name), drawn)
  else
    match c.mutation name with
    | .error e => (.error e, drawn)
    | .ok info =>
      match info.action with
      | .add =>
        (.ok (.add ⟨name, info.template, info.model, logicalArguments values⟩), drawn)
      | .create =>
        match dataArguments values with
        | .error e => (.error e, drawn)
        | .ok data =>
          let (outcome, s) := (c.compileRoot name info data ids).run.run { drawn }
          (outcome.map CompiledMutation.create, s.drawn)

end Catalog

end GraphqlCypher
