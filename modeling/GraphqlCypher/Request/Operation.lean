import GraphqlCypher.Request.Failure

/-! Operations as they are planned: one kind, one root field, the text and the
variables.

A document reaches this point with one root field, so the first operation of the
document and its first field stand for it. -/
namespace GraphqlCypher

structure Operation where
  kind : OperationKind
  rootField : String
  text : String
  values : Json.Object
deriving Repr, Inhabited

namespace Operation

/-- Reads a document as an operation. -/
def parse (text : String) (values : Json.Object) : Except RequestFailure Operation :=
  match Executable.Document.parse text with
  | .error place => .error (.unreadable place)
  | .ok document =>
    match document.findSome? Executable.Definition.operation? with
    | none => .error .noOperation
    | some (kind, selections) =>
      match selections.findSome? Executable.Selection.fieldName? with
      | none => .error (.noField kind)
      | some rootField =>
        .ok {
          kind, rootField, values
          text := String.ofList (Text.trimEnd (Executable.Document.text document).toList) }

end Operation

end GraphqlCypher
