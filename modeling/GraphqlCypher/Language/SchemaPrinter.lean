import GraphqlCypher.Language.Printer
import GraphqlCypher.Language.Schema

/-! Writing schema documents.

Definitions are separated by a blank line. Fields, values and roots stand on lines
of their own, two blanks deep; arguments stay on the line of what takes them. A
description of a definition or field stands above it, any other before it. -/
namespace GraphqlCypher.Schema

open Printer

/-- A description on lines of its own. -/
def descriptionAbove (indent : Nat) : Option String → String
  | none => ""
  | some s => blanks indent ++ Printer.string indent s ++ "\n"

/-- A description on the line of what it describes. -/
def descriptionBefore (indent : Nat) : Option String → String
  | none => ""
  | some s => Printer.string indent s ++ " "

def directivesText (indent : Nat) (ds : List Directive) : String :=
  Directive.suffix (Printer.string indent) ds

def InputValue.textAt (indent : Nat) (v : InputValue) : String :=
  descriptionBefore indent v.description ++ v.name ++ ": " ++ v.type.text ++
    (match v.initial with
      | none => ""
      | some d => " = " ++ d.textWith (Printer.string indent)) ++
    directivesText indent v.directives

def argumentsTextAt (indent : Nat) (arguments : List InputValue) : String :=
  if arguments.isEmpty then ""
  else "(" ++ ", ".intercalate (arguments.map (InputValue.textAt indent)) ++ ")"

def Field.textAt (indent : Nat) (f : Field) : String :=
  descriptionAbove indent f.description ++ blanks indent ++ f.name ++
    argumentsTextAt indent f.arguments ++ ": " ++ f.type.text ++
    directivesText indent f.directives ++ "\n"

def EnumValue.textAt (indent : Nat) (v : EnumValue) : String :=
  blanks indent ++ descriptionBefore indent v.description ++ v.name ++
    directivesText indent v.directives ++ "\n"

/-- Lines between braces, or nothing but the line's end if there are none. -/
def body (lines : List String) : String :=
  if lines.isEmpty then "\n" else " \x7b\n" ++ String.join lines ++ "\x7d\n"

def interfacesText (names : List String) : String :=
  if names.isEmpty then "" else " implements " ++ " & ".intercalate names

/-- A type without its description. -/
def TypeDefinition.bareText : TypeDefinition → String
  | .scalar t => "scalar " ++ t.name ++ directivesText 0 t.directives ++ "\n"
  | .object t =>
    "type " ++ t.name ++ interfacesText t.interfaces ++ directivesText 0 t.directives ++
      body (t.fields.map (Field.textAt 2))
  | .interface t => "interface " ++ t.name ++ interfacesText t.interfaces ++
      directivesText 0 t.directives ++ body (t.fields.map (Field.textAt 2))
  | .union t => "union " ++ t.name ++ directivesText 0 t.directives ++
      (if t.members.isEmpty then "" else " = " ++ " | ".intercalate t.members) ++ "\n"
  | .enum t => "enum " ++ t.name ++ directivesText 0 t.directives ++
      body (t.values.map (EnumValue.textAt 2))
  | .input t => "input " ++ t.name ++ directivesText 0 t.directives ++
      body (t.fields.map fun f => blanks 2 ++ f.textAt 2 ++ "\n")

def TypeDefinition.description : TypeDefinition → Option String
  | .scalar t => t.description
  | .object t => t.description
  | .interface t => t.description
  | .union t => t.description
  | .enum t => t.description
  | .input t => t.description

def Roots.text (r : Roots) : String :=
  let line (root : String) : Option String → String
    | none => ""
    | some type => "  " ++ root ++ ": " ++ type ++ "\n"
  "schema" ++ directivesText 0 r.directives ++ " \x7b\n" ++ line "query" r.query ++
    line "mutation" r.mutation ++ line "subscription" r.subscription ++ "\x7d\n"

def DirectiveDefinition.text (d : DirectiveDefinition) : String :=
  descriptionAbove 0 d.description ++ "directive @" ++ d.name ++ argumentsTextAt 0 d.arguments ++
    (if d.repeatable then " repeatable" else "") ++
    (if d.locations.isEmpty then "" else " on " ++ " | ".intercalate d.locations) ++ "\n"

def Definition.text : Definition → String
  | .roots r => r.text
  | .type t => descriptionAbove 0 t.description ++ t.bareText
  | .extension t => "extend " ++ t.bareText
  | .directive d => d.text

/-- The text of a document. -/
def Document.text (d : Document) : String := "\n".intercalate (d.map Definition.text)

end GraphqlCypher.Schema
