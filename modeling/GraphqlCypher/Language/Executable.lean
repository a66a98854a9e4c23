import GraphqlCypher.Language.Grammar
import GraphqlCypher.Language.Printer

/-! Executable documents: operations and fragments, how they are read and how they
are written.

A document is one definition or more, and each selects something. Selections stand
on lines of their own, two blanks deeper than what they belong to. -/
namespace GraphqlCypher

inductive OperationKind where
  | query
  | mutation
  | subscription
deriving DecidableEq, Repr, Inhabited

def OperationKind.keyword : OperationKind → String
  | .query => "query"
  | .mutation => "mutation"
  | .subscription => "subscription"

namespace Executable

inductive Selection where
  | field (label : Option String) (name : String) (arguments : List (String × Value))
      (directives : List Directive) (selections : List Selection)
  | spread (fragment : String) (directives : List Directive)
  | inline (type : Option String) (directives : List Directive) (selections : List Selection)
deriving Repr, Inhabited

structure VariableDefinition where
  name : String
  type : TypeRef
  initial : Option Value
deriving Repr, Inhabited

/-- What stands between the kind of an operation and its selections. -/
structure Heading where
  name : Option String
  declared : List VariableDefinition
  directives : List Directive
deriving Repr, Inhabited

inductive Definition where
  /-- Selections alone are a query. -/
  | selections (s : List Selection)
  | operation (kind : OperationKind) (heading : Heading) (s : List Selection)
  | fragment (name type : String) (directives : List Directive) (s : List Selection)
deriving Repr, Inhabited

abbrev Document := List Definition

/-- The kind and the selections, if the definition is an operation. -/
def Definition.operation? : Definition → Option (OperationKind × List Selection)
  | .selections s => some (.query, s)
  | .operation kind _ s => some (kind, s)
  | .fragment _ _ _ _ => none

def Selection.fieldName? : Selection → Option String
  | .field _ name _ _ _ => some name
  | _ => none

/-! ### Reading -/

open Grammar

def spreadMark : TokenReader true Unit := accept fun t => if t = .spread then some () else none

/-- A field, whose label stands before its name; `inner` reads what it selects. -/
def field (brackets : Nat) (inner : TokenReader true (List Selection)) :
    TokenReader true Selection :=
  name.andThen fun first =>
    (Reader.optional (nextIsMark ':') ((mark ':').andThen fun _ => name)).andThen fun second =>
      (Grammar.arguments brackets).andThen fun arguments =>
        (Grammar.directives brackets).andThen fun directives =>
          (Reader.optional (nextIsMark '\x7b') inner).map fun selections =>
            match second with
            | some name => .field (some first) name arguments directives (selections.getD [])
            | none => .field none first arguments directives (selections.getD [])

def typeCondition : TokenReader false (Option String) :=
  Reader.optional (nextIsKeyword "on") ((keyword "on").andThen fun _ => name)

/-- What follows three dots. The word `on` always begins a type condition. -/
def afterSpread (brackets : Nat) (inner : TokenReader true (List Selection)) :
    TokenReader true Selection :=
  Reader.look fun tokens =>
    if nextIsName tokens && !nextIsKeyword "on" tokens then
      name.andThen fun fragment => (Grammar.directives brackets).map fun directives =>
        .spread fragment directives
    else
      typeCondition.andThen fun type =>
        (Grammar.directives brackets).andThen fun directives => inner.map fun selections =>
          .inline type directives selections

def selection (brackets : Nat) (inner : TokenReader true (List Selection)) :
    TokenReader true Selection :=
  Reader.look fun tokens =>
    if next? tokens == some .spread then spreadMark.andThen fun _ => afterSpread brackets inner
    else field brackets inner

/-- One selection or more between braces, with so many brackets left to open. -/
def selections : Nat → TokenReader true (List Selection)
  | 0 => refuseHere
  | brackets + 1 => bracketed '\x7b' '\x7d' (fun ts => !nextIsMark '\x7d' ts)
      (selection brackets (selections brackets))

def variableDefinition : TokenReader true VariableDefinition :=
  (mark '$').andThen fun _ => name.andThen fun name => (mark ':').andThen fun _ =>
    (typeRef (maxBrackets - 1)).andThen fun type =>
      (initialValue (maxBrackets - 1)).map fun initial => ⟨name, type, initial⟩

def operation (kind : OperationKind) : TokenReader true Definition :=
  (keyword kind.keyword).andThen fun _ => (Reader.optional nextIsName name).andThen fun name =>
    (optionalBracketed '(' ')' (nextIsMark '$') variableDefinition).andThen fun declared =>
      (Grammar.directives maxBrackets).andThen fun directives =>
        (selections maxBrackets).map fun s => .operation kind ⟨name, declared, directives⟩ s

def fragment : TokenReader true Definition :=
  (keyword "fragment").andThen fun _ => name.andThen fun name => (keyword "on").andThen fun _ =>
    Grammar.name.andThen fun type => (Grammar.directives maxBrackets).andThen fun directives =>
      (selections maxBrackets).map fun s => .fragment name type directives s

def definition : TokenReader true Definition := Reader.look fun tokens =>
  if nextIsMark '\x7b' tokens then (selections maxBrackets).map Definition.selections
  else if nextIsKeyword "query" tokens then operation .query
  else if nextIsKeyword "mutation" tokens then operation .mutation
  else if nextIsKeyword "subscription" tokens then operation .subscription
  else fragment

/-- Reads a document, or gives the place where that is no longer possible. -/
def Document.parse (text : String) : Except Position Document := whole definition text

/-! ### Writing -/

open Printer

/-- Lines between braces, the closing one at the given indent. -/
def braces (indent : Nat) (lines : List String) : String :=
  "\x7b\n" ++ String.join lines ++ blanks indent ++ "\x7d\n"

def argumentsText (indent : Nat) (arguments : List (String × Value)) : String :=
  Value.argumentsText (Printer.string indent) arguments

def directivesText (indent : Nat) (ds : List Directive) : String :=
  Directive.suffix (Printer.string indent) ds

mutual

def Selection.textAt (indent : Nat) : Selection → String
  | .field label name arguments directives selections =>
    blanks indent ++
      (match label with
        | some l => l ++ ": "
        | none => "") ++
      name ++ argumentsText indent arguments ++ directivesText indent directives ++
      (if selections.isEmpty then "\n" else " " ++ braces indent (linesAt (indent + 2) selections))
  | .spread fragment directives =>
    blanks indent ++ "..." ++ fragment ++ directivesText indent directives ++ "\n"
  | .inline type directives selections =>
    blanks indent ++ "..." ++
      (match type with
        | some t => " on " ++ t
        | none => "") ++
      directivesText indent directives ++ " " ++ braces indent (linesAt (indent + 2) selections)

def linesAt (indent : Nat) : List Selection → List String
  | [] => []
  | s :: rest => s.textAt indent :: linesAt indent rest

end

def VariableDefinition.text (v : VariableDefinition) : String :=
  "$" ++ v.name ++ ": " ++ v.type.text ++
    match v.initial with
    | some d => " = " ++ d.textWith (Printer.string 0)
    | none => ""

/-- The variables in parentheses. A subscription writes them only after a name, and
without anything between them. -/
def variablesText (kind : OperationKind) (heading : Heading) : String :=
  if heading.declared.isEmpty then ""
  else
    let between (s : String) : String :=
      "(" ++ s.intercalate (heading.declared.map VariableDefinition.text) ++ ")"
    match kind with
    | .subscription => if heading.name.isSome then between "" else ""
    | _ => between ", "

def Definition.text : Definition → String
  | .selections s => braces 0 (linesAt 2 s)
  | .operation kind heading s =>
    kind.keyword ++
      (match heading.name with
        | some n => " " ++ n
        | none => "") ++
      variablesText kind heading ++ directivesText 0 heading.directives ++ " " ++
      braces 0 (linesAt 2 s)
  | .fragment name type directives s =>
    "fragment " ++ name ++ " on " ++ type ++ directivesText 0 directives ++ " " ++
      braces 0 (linesAt 2 s)

/-- The text of a document; a blank line stands between its definitions. -/
def Document.text (d : Document) : String := "\n".intercalate (d.map Definition.text)

end Executable

end GraphqlCypher
