import GraphqlCypher.Json.Printer
import GraphqlCypher.Mutation.Group

/-! Putting the records that were read back into the shape of the arguments.

Every nested `create` and `connect` is replaced by the records it led to. A created
element keeps what the caller gave and takes over its record, which is found by its
id; a connected element is replaced by the record that its first key finds. Of
records with one key the last counts.

A record is reconciled in its turn, for it may hold relations of its own. Records
that contain each other would go on without end: `depthBound` is more than any
other chain of elements can need, and a chain that exceeds it is refused. -/
namespace GraphqlCypher

/-- The text by which a value is looked up; null is no key. -/
def lookupKey? : Json → Option String
  | .null => none
  | .string s => some s
  | v => some v.compact

/-- What was read back, by model. -/
structure Persisted where
  catalog : Catalog
  byModel : Json.Object

namespace Persisted

variable (P : Persisted)

/-- The records of a model, in order. -/
def records (model : String) : List Json.Object :=
  (((Entries.get? P.byModel model).bind Json.asArray?).getD []).filterMap Json.asObject?

/-- The last record of a model whose unique field has the key. -/
def find? (model field : String) (v : Json) : Option Json.Object :=
  match lookupKey? v, Entries.get? P.catalog.models model with
  | some key, some info =>
    if info.unique.contains field then
      (P.records model).reverse.find? fun r => (Entries.get? r field).bind lookupKey? == some key
    else none
  | _, _ => none

/-- A created element takes over the record with its id. -/
def created (model : String) (arguments : Json.Object) : Json.Object :=
  match (Entries.get? arguments Schema.Names.id).bind (P.find? model Schema.Names.id) with
  | some record => Entries.insertAll arguments record
  | none => arguments

/-- A connected element is the record that its first key finds. -/
def connected (model : String) (arguments : Json.Object) : Json.Object :=
  match arguments.head?.bind fun (field, v) => P.find? model field v with
  | some record => record
  | none => arguments

/-- What stands in the place of a relation: the created elements, then the connected
ones. Of two single elements the connected one is laid over the created one. -/
def joined? : Option Json → Option Json → Option Json
  | none, none => none
  | some created, none => some created
  | none, some connected => some connected
  | some (.array created), some connected => some (.array (created ++ connected.elements))
  | some (.object created), some (.object connected) =>
    some (.object (Entries.insertAll created connected))
  | some created, some _ => some created

/-- Reconciles the relations of an element of a model. -/
abbrev Resolver := String → Json.Object → Except Failure Json.Object

variable (resolve : Resolver)

def element (model : String) (action : NestedAction) : Json → Except Failure Json
  | .object arguments =>
    (resolve model (match action with
      | .create => P.created model arguments
      | .connect => P.connected model arguments)).map Json.object
  | v => .ok v

/-- The elements that one action of a relation supplies, if it supplies any. -/
def elements (model : String) (action : NestedAction) (nested : Json.Object) :
    Except Failure (Option Json) :=
  match Json.given? (Entries.get? nested action.text) with
  | none => .ok none
  | some (.array items) =>
    (items.mapM (element P resolve model action)).map fun items => some (.array items)
  | some v => (element P resolve model action v).map some

/-- A relation of an element, if the element has it. -/
def relation (arguments : Json.Object) (entry : String × String) : Except Failure Json.Object := do
  let (field, related) := entry
  match Entries.get? arguments field with
  | some (.object nested) =>
    let created ← elements P resolve related .create nested
    let connected ← elements P resolve related .connect nested
    let rest := Entries.swapRemove (Entries.swapRemove nested NestedAction.create.text)
      NestedAction.connect.text
    return Entries.insert arguments field ((joined? created connected).getD (.object rest))
  | _ => return arguments

/-- All relations of an element, in the order of the model. -/
def relations (model : String) (arguments : Json.Object) : Except Failure Json.Object := do
  let info ← P.catalog.model model
  info.relations.foldlM (relation P resolve) arguments

end Persisted

/-- Reconciles chains of so many elements at most. -/
def Persisted.resolve (P : Persisted) : Nat → Persisted.Resolver
  | 0 => fun _ _ => .error .endless
  | depth + 1 => P.relations (P.resolve depth)

/-- An element is given by a model, an action and a value that stands somewhere in
the arguments or in what was read back; a longer chain has one of them twice. -/
def Persisted.depthBound (P : Persisted) (arguments : Json.Object) : Nat :=
  2 * (P.catalog.models.length + 1) * (Json.sizeEntries arguments + Json.sizeEntries P.byModel + 2)

/-- The arguments of a root create with all records in their places. -/
def Catalog.reconcile (c : Catalog) (model : String) (arguments : Json.Object) (persisted : Json) :
    Except Failure Json :=
  match persisted with
  | .object byModel =>
    let P : Persisted := ⟨c, byModel⟩
    (P.resolve (P.depthBound arguments) model (P.created model arguments)).map Json.object
  | _ => .error .notGrouped

end GraphqlCypher
