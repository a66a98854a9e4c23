import GraphqlCypher.Number.Binary64

/-! What schemas and operations are both made of: type references, values and
directives. -/
namespace GraphqlCypher

/-- A reference to a type by name, perhaps in lists and marked as not null. -/
inductive TypeRef where
  | named (name : String)
  | list (item : TypeRef)
  | nonNull (inner : TypeRef)
deriving DecidableEq, Repr, Inhabited

/-- A value as it is written in a schema or in an operation. The fields of an
object are sorted by name. -/
inductive Value where
  | var (name : String)
  | int (n : Int)
  | float (x : Binary64)
  | string (s : String)
  | bool (b : Bool)
  | null
  | enum (name : String)
  | list (items : List Value)
  | object (fields : List (String × Value))
deriving Repr, Inhabited

/-- A directive with its arguments, in the order in which they are written. -/
structure Directive where
  name : String
  arguments : List (String × Value)
deriving Repr, Inhabited

namespace TypeRef

/-- The type at the bottom of all wrappers. -/
def name : TypeRef → String
  | .named n => n
  | .list item => item.name
  | .nonNull inner => inner.name

/-- Whether a wrapper on the way to the named type is a list. -/
def isList : TypeRef → Bool
  | .named _ => false
  | .list _ => true
  | .nonNull inner => inner.isList

/-- The type without an outermost mark for not null. -/
def stripNonNull : TypeRef → TypeRef
  | .nonNull inner => inner
  | t => t

/-- A list of lists becomes a list of what is at its bottom; all else stays. -/
def reduceNestedList : TypeRef → TypeRef
  | .list (.list item) => .list (.named item.name)
  | t => t

/-- `[T!]` -/
def listOfNonNull (n : String) : TypeRef := .list (.nonNull (.named n))

def text : TypeRef → String
  | .named n => n
  | .list item => "[" ++ item.text ++ "]"
  | .nonNull inner => inner.text ++ "!"

theorem reduceNestedList_name (t : TypeRef) : t.reduceNestedList.name = t.name := by
  unfold reduceNestedList
  split <;> rfl

theorem reduceNestedList_isList (t : TypeRef) : t.reduceNestedList.isList = t.isList := by
  unfold reduceNestedList
  split <;> rfl

/-- Reducing twice changes nothing more. -/
theorem reduceNestedList_idem (t : TypeRef) :
    t.reduceNestedList.reduceNestedList = t.reduceNestedList := by
  match t with
  | .named _ | .nonNull _ => rfl
  | .list (.named _) | .list (.nonNull _) => rfl
  | .list (.list _) => rfl

end TypeRef

namespace Directive

/-- A directive without arguments. -/
def bare (name : String) : Directive := ⟨name, []⟩

/-- A directive with one argument, a string. -/
def withString (name argument value : String) : Directive := ⟨name, [(argument, .string value)]⟩

end Directive

end GraphqlCypher
