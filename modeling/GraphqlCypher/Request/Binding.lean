import GraphqlCypher.Request.Config
import GraphqlCypher.Request.Response
import GraphqlCypher.Request.Session

/-! Bindings: the table of root fields that resolvers call.

A call becomes an operation with one field. Each argument becomes a variable named
`_v<n>_<argument>`, so that its name cannot meet another; compiling takes the tag
off again. An operation is planned, run in a session, and shaped into data. -/
namespace GraphqlCypher

open Schema

/-! ### Links -/

/-- Plans operations and runs them. -/
structure Link where
  catalog : Catalog
  log : Bool
  ids : Option IdGenerator

namespace Link

/-- The plan of an operation, and the number of ids drawn by then. -/
def planFrom (l : Link) (op : Operation) (drawn : Nat) : Except RequestFailure Plan × Nat :=
  match op.kind with
  | .query => (.ok (Plan.ofQuery op.text op.values), drawn)
  | .subscription => (.error .subscriptionPlanned, drawn)
  | .mutation =>
    match Plan.ofMutation l.catalog op.text op.rootField op.values l.ids drawn with
    | (.ok p, drawn) => (.ok p, drawn)
    | (.error f, drawn) => (.error (.core f), drawn)

def plan (l : Link) (op : Operation) : RequestM Plan := do
  let (outcome, drawn) := l.planFrom op (← get).drawn
  modify fun w => { w with drawn }
  RequestM.ofExcept outcome

/-- Runs an operation and returns its data. -/
def request (l : Link) (op : Operation) : RequestM Json := do
  let plan ← l.plan op
  let s := plan.statement
  if l.log then RequestM.note (.request s.text (.object s.parameters))
  let records ← RequestM.execute s
  let data ← RequestM.ofCore (plan.shape l.catalog records)
  if l.log then RequestM.note (.response data)
  return data

/-- Runs an operation; a failure becomes part of the response. -/
def handle (l : Link) (op : Operation) : StateM World Response := do
  return Response.ofResult (← ExceptT.run (l.request op))

end Link

/-! ### Signatures -/

/-- The types of a field's arguments, by name. -/
abbrev Signature := Entries String

def Signature.ofField (f : Field) : Signature :=
  Entries.ofList (f.arguments.map fun a => (a.name, a.type.text))

/-- The fields of both roots. -/
structure RootSignatures where
  queries : Entries Signature
  mutations : Entries Signature
deriving Repr

namespace RootSignatures

def ofRoot (d : Document) (root : Option RootFields) : Entries Signature :=
  match root.bind (·.type? d) with
  | none => []
  | some t => Entries.ofList (t.fields.map fun f => (f.name, Signature.ofField f))

def ofDocument (d : Document) : RootSignatures :=
  let roots := RootIndex.ofDocument d
  ⟨ofRoot d roots.queries, ofRoot d roots.mutations⟩

def find? (s : RootSignatures) (kind : OperationKind) (field : String) : Option Signature :=
  match kind with
  | .query => Entries.get? s.queries field
  | .mutation => Entries.get? s.mutations field
  | .subscription => none

end RootSignatures

/-! ### Calls -/

/-- An argument on its way into an operation. -/
structure PassedArgument where
  name : String
  variableName : String
  type : String
  value : Json
deriving Repr

namespace PassedArgument

/-- The variable of the argument at a place. -/
def taggedName (place : Nat) (argument : String) : String :=
  "_v" ++ toString place ++ "_" ++ argument

/-- The arguments of a call in order, all of which the signature must know. -/
def ofArguments (signature : Signature) (field : String) (arguments : Json.Object) :
    Except RequestFailure (List PassedArgument) :=
  arguments.zipIdx.mapM fun ((name, value), place) =>
    match Entries.get? signature name with
    | some type => .ok ⟨name, taggedName place name, type, value⟩
    | none => .error (.unknownArgument name field)

/-- A list of parts in parentheses, or nothing if there are none. -/
def inParentheses (before : String) (parts : List String) : String :=
  if parts.isEmpty then "" else before ++ "(" ++ ", ".intercalate parts ++ ")"

/-- `<kind> ($_v0_a: A) { field(a: $_v0_a) <selection> }` -/
def callText (kind : OperationKind) (field : String) (selection : Option String)
    (arguments : List PassedArgument) : String :=
  let declared := arguments.map fun a => "$" ++ a.variableName ++ ": " ++ a.type
  let passed := arguments.map fun a => a.name ++ ": $" ++ a.variableName
  kind.keyword ++ inParentheses " " declared ++ " \x7b " ++ field ++ inParentheses "" passed ++
    (match selection with
      | some s => " " ++ s
      | none => "") ++ " \x7d"

/-- The values of the variables. -/
def values (arguments : List PassedArgument) : Json.Object :=
  Entries.ofList (arguments.map fun a => (a.variableName, a.value))

end PassedArgument

/-- The operation that a call becomes. -/
def delegatedOperation (kind : OperationKind) (field : String) (signature : Signature)
    (arguments : Json.Object) (selection : Option String) : Except RequestFailure Operation := do
  let passed ← PassedArgument.ofArguments signature field arguments
  Operation.parse (PassedArgument.callText kind field selection passed)
    (PassedArgument.values passed)

structure Binding where
  link : Link
  signatures : RootSignatures

namespace Binding

/-- The binding of type definitions. Ids come from the given generator. -/
def ofText (text : String) (log : Bool) (ids : Option IdGenerator) :
    Except RequestFailure Binding :=
  match Document.read text with
  | .error e => .error (.core (.schema e))
  | .ok d =>
    match Catalog.ofDocument d with
    | .error e => .error (.core (.schema e))
    | .ok catalog => .ok ⟨⟨catalog, log, ids⟩, RootSignatures.ofDocument d⟩

def hasField (b : Binding) (kind : OperationKind) (field : String) : Bool :=
  (b.signatures.find? kind field).isSome

/-- Calls a root field and returns its value. -/
def delegate (b : Binding) (kind : OperationKind) (field : String) (arguments : Json.Object)
    (selection : Option String) : RequestM Json := do
  match b.signatures.find? kind field with
  | none => throw (.missingCallable kind.rootType field)
  | some signature =>
    let op ← RequestM.ofExcept (delegatedOperation kind field signature arguments selection)
    let data ← b.link.request op
    return (data.get? field).getD .null

end Binding

end GraphqlCypher
