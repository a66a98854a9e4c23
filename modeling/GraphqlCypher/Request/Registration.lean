import GraphqlCypher.Language.SchemaPrinter
import GraphqlCypher.Request.Session

/-! Registering a schema with the database.

The database takes native statements of the mutation root on one line each, so the
line feeds in them become blanks before the schema is sent. -/
namespace GraphqlCypher

namespace Schema

/-- Line feeds become blanks. -/
def oneLine (statement : List Char) : List Char :=
  statement.map fun c => if c = '\n' then ' ' else c

theorem not_mem_oneLine (statement : List Char) : '\n' ∉ oneLine statement := by
  unfold oneLine
  rw [List.mem_map]
  rintro ⟨c, _, h⟩
  split at h
  · exact absurd h (by decide)
  · next hc => exact hc h

theorem length_oneLine (statement : List Char) : (oneLine statement).length = statement.length := by
  simp [oneLine]

def oneLineArgument : String × Value → String × Value
  | (name, .string s) =>
    if name = Names.statement then (name, .string (String.ofList (oneLine s.toList)))
    else (name, .string s)
  | other => other

/-- Puts the statement of a directive that holds one on one line. -/
def oneLineDirective (d : Directive) : Directive :=
  if d.name = Names.cypher then { d with arguments := d.arguments.map oneLineArgument } else d

def oneLineField (f : Field) : Field := { f with directives := f.directives.map oneLineDirective }

namespace Document

/-- Puts the statements of the first mutation root on one line each. -/
def oneLineStatements : Document → Document
  | [] => []
  | .type (.object t) :: rest =>
    if t.name = Names.mutation then
      .type (.object { t with fields := t.fields.map oneLineField }) :: rest
    else .type (.object t) :: oneLineStatements rest
  | other :: rest => other :: oneLineStatements rest

/-- Reads type definitions and writes them with their statements on one line each. -/
def oneLineText (text : String) : Except SchemaError String :=
  (read text).map fun d => d.oneLineStatements.text

end Document

end Schema

/-- The statement that registers a schema. -/
def registrationStatement (schema : String) : Statement :=
  { text := "CALL graphql.idl(\x7bschema\x7d)", parameters := [("schema", .string schema)] }

/-- Registers type definitions and returns what the database answers. -/
def register (text : String) : RequestM Json := do
  match Schema.Document.oneLineText text with
  | .error e => throw (.core (.schema e))
  | .ok schema =>
    let records ← RequestM.execute (registrationStatement schema)
    match Plan.firstValue? records with
    | some v => return v
    | none => throw (.core .notRegistered)

end GraphqlCypher
