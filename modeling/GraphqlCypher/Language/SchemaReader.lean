import GraphqlCypher.Language.Grammar
import GraphqlCypher.Language.Schema

/-! Reading schema documents.

A document is one definition or more. An extension that adds nothing is refused at
the kind of what it extends, and a schema definition that names a root twice, or
one that is no root, at the word `schema` once it has been read. -/
namespace GraphqlCypher.Schema

open Grammar

def description : TokenReader false (Option String) :=
  Reader.optional nextIsString (accept fun
    | .string s => some s
    | _ => none)

/-! ### Parts of definitions -/

def inputValue (brackets : Nat) : TokenReader true InputValue :=
  description.andThen fun description => name.andThen fun name => (mark ':').andThen fun _ =>
    (typeRef brackets).andThen fun type => (initialValue brackets).andThen fun initial =>
      (Grammar.directives brackets).map fun directives =>
        ⟨description, name, type, initial, directives⟩

def argumentDefinitions (brackets : Nat) : TokenReader false (List InputValue) :=
  optionalBracketed '(' ')' nextIsNamed (inputValue (brackets - 1))

def field (brackets : Nat) : TokenReader true Field :=
  description.andThen fun description => name.andThen fun name =>
    (argumentDefinitions brackets).andThen fun arguments => (mark ':').andThen fun _ =>
      (typeRef brackets).andThen fun type => (Grammar.directives brackets).map fun directives =>
        ⟨description, name, arguments, type, directives⟩

def fields (brackets : Nat) : TokenReader false (List Field) :=
  optionalBracketed '\x7b' '\x7d' nextIsNamed (field (brackets - 1))

def interfaces : TokenReader false (List String) :=
  (Reader.optional (nextIsKeyword "implements")
    ((keyword "implements").andThen fun _ => separated '&' name)).map fun names => names.getD []

def enumValue (brackets : Nat) : TokenReader true EnumValue :=
  description.andThen fun description => name.andThen fun name =>
    (Grammar.directives brackets).map fun directives => ⟨description, name, directives⟩

def members : TokenReader false (List String) :=
  (Reader.optional (nextIsMark '=') ((mark '=').andThen fun _ => separated '|' name)).map fun ms =>
    ms.getD []

/-! ### Types -/

def scalarType (description : Option String) : TokenReader true ScalarType :=
  (keyword "scalar").andThen fun _ => name.andThen fun name =>
    (Grammar.directives maxBrackets).map fun directives => ⟨description, name, directives⟩

def objectType (description : Option String) : TokenReader true ObjectType :=
  (keyword "type").andThen fun _ => name.andThen fun name => interfaces.andThen fun interfaces =>
    (Grammar.directives maxBrackets).andThen fun directives =>
      (fields maxBrackets).map fun fields =>
      ⟨description, name, interfaces, directives, fields⟩

def interfaceType (description : Option String) : TokenReader true InterfaceType :=
  (keyword "interface").andThen fun _ => name.andThen fun name =>
    interfaces.andThen fun interfaces => (Grammar.directives maxBrackets).andThen fun directives =>
      (fields maxBrackets).map fun fields => ⟨description, name, interfaces, directives, fields⟩

def unionType (description : Option String) : TokenReader true UnionType :=
  (keyword "union").andThen fun _ => name.andThen fun name =>
    (Grammar.directives maxBrackets).andThen fun directives => members.map fun members =>
      ⟨description, name, directives, members⟩

def enumType (description : Option String) : TokenReader true EnumType :=
  (keyword "enum").andThen fun _ => name.andThen fun name =>
    (Grammar.directives maxBrackets).andThen fun directives =>
      (optionalBracketed '\x7b' '\x7d' nextIsNamed (enumValue (maxBrackets - 1))).map fun values =>
        ⟨description, name, directives, values⟩

def inputType (description : Option String) : TokenReader true InputType :=
  (keyword "input").andThen fun _ => name.andThen fun name =>
    (Grammar.directives maxBrackets).andThen fun directives =>
      (optionalBracketed '\x7b' '\x7d' nextIsNamed (inputValue (maxBrackets - 1))).map fun fields =>
        ⟨description, name, directives, fields⟩

/-- A type of any kind, by the word it begins with. -/
def typeDefinition (description : Option String) : TokenReader true TypeDefinition :=
  Reader.look fun tokens =>
    if nextIsKeyword "scalar" tokens then (scalarType description).map TypeDefinition.scalar
    else if nextIsKeyword "type" tokens then (objectType description).map TypeDefinition.object
    else if nextIsKeyword "interface" tokens then
      (interfaceType description).map TypeDefinition.interface
    else if nextIsKeyword "union" tokens then (unionType description).map TypeDefinition.union
    else if nextIsKeyword "enum" tokens then (enumType description).map TypeDefinition.enum
    else if nextIsKeyword "input" tokens then (inputType description).map TypeDefinition.input
    else refuseHere

/-- Whether an extension adds something. The interfaces of an interface do not count. -/
def TypeDefinition.addsSomething : TypeDefinition → Bool
  | .scalar t => !t.directives.isEmpty
  | .object t => !t.interfaces.isEmpty || !t.directives.isEmpty || !t.fields.isEmpty
  | .interface t => !t.directives.isEmpty || !t.fields.isEmpty
  | .union t => !t.directives.isEmpty || !t.members.isEmpty
  | .enum t => !t.directives.isEmpty || !t.values.isEmpty
  | .input t => !t.directives.isEmpty || !t.fields.isEmpty

/-! ### Definitions -/

/-- Gives each root its type; a root that is unknown or was given before is refused. -/
def rootsOf? (directives : List Directive) (entries : List (String × String)) : Option Roots :=
  entries.foldl (fun (roots : Option Roots) (root, type) => roots.bind fun r =>
    if root = "query" ∧ r.query = none then some { r with query := some type }
    else if root = "mutation" ∧ r.mutation = none then some { r with mutation := some type }
    else if root = "subscription" ∧ r.subscription = none then
      some { r with subscription := some type }
    else none) (some { directives })

def roots : TokenReader true Roots :=
  ((keyword "schema").andThen fun _ => (Grammar.directives maxBrackets).andThen fun directives =>
    (enclosed '\x7b' '\x7d' (entry name)).map fun entries => (directives, entries)).check
      (fun (directives, entries) => rootsOf? directives entries) here

/-- The places where a directive may stand. -/
def directiveLocations : List String :=
  ["QUERY", "MUTATION", "SUBSCRIPTION", "FIELD", "FRAGMENT_DEFINITION", "FRAGMENT_SPREAD",
    "INLINE_FRAGMENT", "VARIABLE_DEFINITION", "SCHEMA", "SCALAR", "OBJECT", "FIELD_DEFINITION",
    "ARGUMENT_DEFINITION", "INTERFACE", "UNION", "ENUM", "ENUM_VALUE", "INPUT_OBJECT",
    "INPUT_FIELD_DEFINITION"]

/-- The places after the word `on`; there may be none. -/
def locations : TokenReader false (List String) :=
  (Reader.optional (fun ts => nextIsName ts || nextIsMark '|' ts)
    (separated '|' (oneOf directiveLocations))).map fun names => names.getD []

def repeatableMark : TokenReader false Bool :=
  (Reader.optional (nextIsKeyword "repeatable") (keyword "repeatable")).map Option.isSome

def directiveDefinition (description : Option String) : TokenReader true DirectiveDefinition :=
  (keyword "directive").andThen fun _ => (mark '@').andThen fun _ => name.andThen fun name =>
    (argumentDefinitions maxBrackets).andThen fun arguments =>
      repeatableMark.andThen fun repeatable =>
        (keyword "on").andThen fun _ => locations.map fun locations =>
          ⟨description, name, arguments, repeatable, locations⟩

def definition : TokenReader true Definition := Reader.look fun tokens =>
  if nextIsKeyword "schema" tokens then roots.map Definition.roots
  else if nextIsKeyword "extend" tokens then
    (keyword "extend").andThen fun _ =>
      ((typeDefinition none).check
        (fun t => if t.addsSomething then some (Definition.extension t) else none) here).relax
  else description.andThen fun description => Reader.look fun tokens =>
    if nextIsKeyword "directive" tokens then
      (directiveDefinition description).map Definition.directive
    else (typeDefinition description).map Definition.type

/-- Reads a document, or gives the place where that is no longer possible. -/
def Document.parse (text : String) : Except Position Document := whole definition text

end GraphqlCypher.Schema
