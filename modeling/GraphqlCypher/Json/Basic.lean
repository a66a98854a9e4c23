import GraphqlCypher.Entries
import GraphqlCypher.Number.Shortest

/-! JSON values.

Objects keep the order in which their keys were given. Numbers are whole numbers
or floating point numbers, and stay what they were read as. -/
namespace GraphqlCypher

/-- A number that was written without fraction and exponent, or any other. -/
inductive Json.Number where
  | integer (n : Int)
  | real (x : Binary64)
deriving DecidableEq, Repr, Inhabited

inductive Json where
  | null
  | bool (b : Bool)
  | number (n : Json.Number)
  | string (s : String)
  | array (items : List Json)
  | object (entries : List (String × Json))
deriving Repr, Inhabited

namespace Json

/-- The entries of an object. -/
abbrev Object := Entries Json

def isNull : Json → Bool
  | .null => true
  | _ => false

def asObject? : Json → Option Object
  | .object entries => some entries
  | _ => none

def asArray? : Json → Option (List Json)
  | .array items => some items
  | _ => none

def asString? : Json → Option String
  | .string s => some s
  | _ => none

/-- The value of a key, if the value is an object that has it. -/
def get? (v : Json) (k : String) : Option Json :=
  match v with
  | .object entries => Entries.get? entries k
  | _ => none

/-- The value of a key, `null` standing for none. -/
def given? (v : Option Json) : Option Json :=
  match v with
  | some .null => none
  | other => other

/-- A list, or the one value as a list of its own. -/
def elements : Json → List Json
  | .array items => items
  | v => [v]

mutual

/-- The number of values in a value, itself included. -/
def size : Json → Nat
  | .array items => 1 + sizeItems items
  | .object entries => 1 + sizeEntries entries
  | _ => 1

def sizeItems : List Json → Nat
  | [] => 0
  | v :: rest => size v + sizeItems rest

def sizeEntries : List (String × Json) → Nat
  | [] => 0
  | (_, v) :: rest => size v + sizeEntries rest

end

end Json

end GraphqlCypher
