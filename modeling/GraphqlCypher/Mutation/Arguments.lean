import GraphqlCypher.Catalog.Basic
import GraphqlCypher.Json.Basic

/-! The arguments of a generated mutation.

Callers that put several operations into one give their variables names of the form
`_<tag>_<name>`; `logicalName` finds the argument that was meant. A create mutation
takes everything under `data`. New nodes get an id if a generator is at hand. -/
namespace GraphqlCypher

/-! ### Names of variables -/

/-- The name behind a tag. Both the tag and the name must be there, and the tag has
letters and digits only; any other name stays as it is. -/
def logicalChars (name : List Char) : List Char :=
  match name with
  | '_' :: rest =>
    let tag := rest.takeWhile (· != '_')
    match rest.dropWhile (· != '_') with
    | [] => name
    | _ :: logical =>
      if !tag.isEmpty && !logical.isEmpty && tag.all Char.isAlphanum then logical else name
  | _ => name

/-- `_v0_data` gives `data`. -/
def logicalName (name : String) : String := String.ofList (logicalChars name.toList)

/-- The arguments that the variables stand for. -/
def logicalArguments (values : Json.Object) : Json.Object :=
  Entries.ofList (values.map fun (n, v) => (logicalName n, v))

/-- The arguments of a create mutation: the object under `data`. -/
def dataArguments (values : Json.Object) : Except Failure Json.Object :=
  match Entries.get? (logicalArguments values) "data" with
  | some (.object data) => .ok data
  | _ => .error .dataNotObject

/-! ### Ids -/

/-- A supply of ids: the first is number zero. It may run out, or fail in any other way. -/
structure IdGenerator where
  next : Nat → Except Failure String

namespace IdGenerator

/-- `<stem>1`, `<stem>2` and so on, up to a limit. -/
def counting (stem : String) (limit : Option Nat) : IdGenerator where
  next n :=
    match limit with
    | some l =>
      if n < l then .ok (stem ++ toString (n + 1))
      else .error (.idGeneration ("out of ids after " ++ toString l))
    | none => .ok (stem ++ toString (n + 1))

end IdGenerator

/-- Gives the arguments of a new node an id unless they have one. With them comes
the number of ids drawn so far. What the supply fails with is passed on as it is. -/
def withId (ids : Option IdGenerator) (drawn : Nat) (arguments : Json.Object) :
    Except Failure (Json.Object × Nat) :=
  match ids with
  | none => .ok (arguments, drawn)
  | some generator =>
    if Entries.contains arguments Schema.Names.id then .ok (arguments, drawn)
    else
      match generator.next drawn with
      | .ok id => .ok (Entries.insert arguments Schema.Names.id (.string id), drawn + 1)
      | .error e => .error e

end GraphqlCypher
