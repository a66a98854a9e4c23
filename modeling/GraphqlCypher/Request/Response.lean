import GraphqlCypher.Request.Failure

/-! Responses: data, and the messages of errors. -/
namespace GraphqlCypher

structure Response where
  data : Json.Object := []
  errors : List String := []
deriving Repr

namespace Response

def ofFailure (f : RequestFailure) : Response := { errors := [f.message] }

/-- Data must be an object; null stands for no data. -/
def ofResult : Except RequestFailure Json → Response
  | .ok (.object data) => { data }
  | .ok .null => {}
  | .ok other => ofFailure (.dataNotObject other)
  | .error f => ofFailure f

def addError (r : Response) (message : String) : Response :=
  { r with errors := r.errors ++ [message] }

def hasErrors (r : Response) : Bool := !r.errors.isEmpty

/-- Parts that are empty are left out. -/
def toJson (r : Response) : Json :=
  .object
    ((if r.data.isEmpty then [] else [("data", .object r.data)]) ++
      if r.errors.isEmpty then []
      else [("errors", .array (r.errors.map fun m => .object [("message", .string m)]))])

end Response

end GraphqlCypher
