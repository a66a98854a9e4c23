import GraphqlCypher.Request.Binding
import GraphqlCypher.Request.Registration
import GraphqlCypher.Request.Resolver

/-! Services: a binding as requests see it.

Requests find a binding under keys of their own choice. `Service.Call` lists what can
be asked of a service, and `Service.answer` answers it in the world of the request. -/
namespace GraphqlCypher

open Schema

/-- A root field that is to be resolved. -/
structure FieldCall where
  parent : String
  field : String
  arguments : Json.Object
  selection : Option String
deriving Repr

/-- A binding, the keys under which requests find it, and its type definitions. -/
structure Service where
  text : String
  binding : Binding
  keys : List String

namespace Service

def bindingAt (s : Service) (key : String) : RequestM Binding :=
  if s.keys.contains key then pure s.binding else throw (.missingBinding key)

/-- Calls a root field through the binding under a key. -/
def resolve (s : Service) (key : String) (call : FieldCall) : RequestM Json := do
  let binding ← s.bindingAt key
  if call.parent = Names.query then
    binding.delegate .query call.field call.arguments call.selection
  else if call.parent = Names.mutation then
    binding.delegate .mutation call.field call.arguments call.selection
  else throw (.missingCallable call.parent call.field)

/-- Calls a root field through the default binding; the field becomes the name of
the operation. -/
def execute (s : Service) (call : FieldCall) : RequestM Json := do
  if call.parent = Names.mutation ∨ call.parent = Names.query then
    modify fun w => { w with operationName := some call.field }
    let binding ← s.bindingAt defaultBindingKey
    let kind := if call.parent = Names.mutation then OperationKind.mutation else .query
    binding.delegate kind call.field call.arguments call.selection
  else if call.parent = Names.subscription then throw .subscriptionResolved
  else throw (.notRoot call.parent)

/-- Whether a resolver is built for a root field. -/
def buildsResolver (s : Service) (o : ResolverOptions) (parent field : String) :
    Except RequestFailure Bool :=
  (buildResolvers s.text [] o).map fun built => ((Entries.get? built parent).getD []).contains field

/-! ### Calls and answers -/

/-- What can be asked of a service. -/
inductive Call where
  | delegate (kind : OperationKind) (field : String) (arguments : Json.Object)
      (selection : Option String)
  | request (query : String) (values : Json.Object)
  | handle (query : String) (values : Json.Object)
  | plan (query : String) (values : Json.Object)
  | hasField (kind : OperationKind) (field : String)
  | isGenerated (field : String)
  | execute (call : FieldCall)
  | resolve (key : String) (call : FieldCall)
  /-- Resolves with the resolver that is built for the field, if one is. -/
  | resolveBuilt (options : ResolverOptions) (call : FieldCall)
  /-- Registers type definitions; the service's own if none are given. -/
  | register (text : Option String)
deriving Repr

inductive Answer where
  | data (v : Json)
  | response (r : Response)
  | plan (p : Plan)
  | holds (b : Bool)
  | noResolver
deriving Repr

def answer (s : Service) : Call → RequestM Answer
  | .delegate kind field arguments selection =>
    return .data (← s.binding.delegate kind field arguments selection)
  | .request query values => do
    let op ← RequestM.ofExcept (Operation.parse query values)
    return .data (← s.binding.link.request op)
  | .handle query values => do
    let op ← RequestM.ofExcept (Operation.parse query values)
    return .response (← s.binding.link.handle op)
  | .plan query values => do
    let op ← RequestM.ofExcept (Operation.parse query values)
    return .plan (← s.binding.link.plan op)
  | .hasField kind field => return .holds (s.binding.hasField kind field)
  | .isGenerated field => return .holds (s.binding.link.catalog.isGenerated field)
  | .execute call => return .data (← s.execute call)
  | .resolve key call => return .data (← s.resolve key call)
  | .resolveBuilt options call => do
    if ← RequestM.ofExcept (s.buildsResolver options call.parent call.field) then
      return .data (← s.resolve options.bindingKey call)
    else return .noResolver
  | .register text => return .data (← register (text.getD s.text))

end Service

end GraphqlCypher
