import GraphqlCypher.Language.Printer
import GraphqlCypher.Language.Schema
import GraphqlCypher.Schema.Names

/-! What the directives of a schema say about types and fields.

A model is an object type marked `@model`. Of its fields, relations are edges to
other models, computed fields are answered by a native statement, and the rest are
the properties that are stored. -/
namespace GraphqlCypher.Schema

def hasDirective (ds : List Directive) (name : String) : Bool := ds.any (·.name == name)

def findDirective? (ds : List Directive) (name : String) : Option Directive :=
  ds.find? (·.name == name)

def ObjectType.isModel (t : ObjectType) : Bool := hasDirective t.directives Names.model

/-! ### Relations -/

/-- Which way an edge points, seen from the model with the field. -/
inductive Direction where
  | inward
  | outward
  | both
deriving DecidableEq, Repr

namespace Direction

def ofText? : String → Option Direction
  | "IN" => some .inward
  | "OUT" => some .outward
  | "BOTH" => some .both
  | _ => none

def text : Direction → String
  | .inward => "IN"
  | .outward => "OUT"
  | .both => "BOTH"

theorem ofText?_text (d : Direction) : ofText? d.text = some d := by cases d <;> rfl

end Direction

/-- What a relation says of its edge; it need not say either. -/
structure RelationInfo where
  name : Option String := none
  direction : Option Direction := none
deriving DecidableEq, Repr

/-- The word of a value that is a string or the name of an enum value. -/
def wordOf? : Value → Option String
  | .string s => some s
  | .enum s => some s
  | _ => none

/-- The last argument of each name counts; values that are no words do not. -/
def RelationInfo.ofDirective (d : Directive) : RelationInfo :=
  d.arguments.foldl (fun info (name, v) =>
    match wordOf? v with
    | none => info
    | some word =>
      if name = "name" then { info with name := some word }
      else if name = "direction" then { info with direction := Direction.ofText? word }
      else info) {}

/-! ### Fields -/

namespace Field

/-- The name of the field's type, below all lists and marks. -/
def typeName (f : Field) : String := f.type.name

def isRelation (f : Field) : Bool := hasDirective f.directives Names.relation

/-- Answered by a native statement, and so never stored. -/
def isComputed (f : Field) : Bool := hasDirective f.directives Names.cypher

def isInternalId (f : Field) : Bool := f.name == Names.internalId

def hasUniqueMark (f : Field) : Bool :=
  hasDirective f.directives Names.unique || hasDirective f.directives Names.isUnique

/-- Fit to look a node up by. -/
def isUnique (f : Field) : Bool := f.name == Names.id || f.hasUniqueMark

/-- A property that is stored on the node. -/
def isStored (f : Field) : Bool := !f.isRelation && !f.isComputed && !f.isInternalId

def relationInfo? (f : Field) : Option RelationInfo :=
  (findDirective? f.directives Names.relation).map RelationInfo.ofDirective

end Field

/-! ### On one line -/

namespace Inline

def escape (c : Char) : List Char :=
  if c = '"' then ['\\', '"']
  else if c = '\\' then ['\\', '\\']
  else if c = '\n' then ['\\', 'n']
  else if c = '\r' then ['\\', 'r']
  else if c = '\t' then ['\\', 't']
  else [c]

/-- A string between quotes, whatever it holds. -/
def string (s : String) : String := String.ofList ('"' :: s.toList.flatMap escape ++ ['"'])

def directives (ds : List Directive) : String := Directive.suffix string ds

def inputValue (v : InputValue) : String :=
  v.name ++ ": " ++ v.type.text ++
    (match v.initial with
      | none => ""
      | some d => " = " ++ d.textWith string) ++ directives v.directives

/-- A field without its description: `id: ID! @unique`. -/
def field (f : Field) : String :=
  f.name ++
    (if f.arguments.isEmpty then ""
      else "(" ++ ", ".intercalate (f.arguments.map inputValue) ++ ")") ++
    ": " ++ f.type.text ++ directives f.directives

end Inline

end GraphqlCypher.Schema
