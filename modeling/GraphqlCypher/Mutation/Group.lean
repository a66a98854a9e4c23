import GraphqlCypher.Catalog.Basic

/-! The statement groups of a nested mutation.

A *path* leads from the root arguments to the elements nested in them, one relation
and one action a step. All elements of one path share one group: it unwinds down to
the element, creates it if the last action is `create`, and puts the edge to its
owner. A group is a value; `Group.text` writes it. -/
namespace GraphqlCypher

/-- What a relation does with its elements. -/
inductive NestedAction where
  | create
  | connect
deriving DecidableEq, Repr

def NestedAction.text : NestedAction → String
  | .create => "create"
  | .connect => "connect"

/-- A step from arguments down to an element of a relation. -/
structure Step where
  field : String
  action : NestedAction
  related : String
deriving DecidableEq, Repr

/-- The variable that an element is bound to, after the one of its owner. -/
def Step.elementAfter (owner : String) (s : Step) : String :=
  owner ++ Text.capitalize s.field ++ s.related

/-- The variable of the element at the end of a path; the root model names the root. -/
def elementAt (root : String) (path : List Step) : String := path.foldl Step.elementAfter root

/-! ### Where values come from -/

inductive Source where
  /-- The root arguments. -/
  | argument
  /-- Nowhere: the root arguments lack the value. -/
  | missing
  /-- The element bound to a variable. -/
  | element (name : String)
deriving DecidableEq, Repr

/-- A key, and where its value comes from. -/
structure KeyBinding where
  key : String
  source : Source
deriving DecidableEq, Repr

def KeyBinding.text (b : KeyBinding) : String :=
  b.key ++ ": " ++
    match b.source with
    | .argument => "\x7bvariables\x7d." ++ b.key
    | .missing => "NULL"
    | .element name => name ++ "." ++ b.key

def bindingsText (bs : List KeyBinding) : String := ", ".intercalate (bs.map KeyBinding.text)

/-- Keys from the root arguments. A call has a fixed signature, so a key that is not
supplied is still named. -/
def rootBindings (keys supplied : List String) : List KeyBinding :=
  keys.map fun k => ⟨k, if supplied.contains k then .argument else .missing⟩

def elementBindings (keys : List String) (element : String) : List KeyBinding :=
  keys.map fun k => ⟨k, .element element⟩

/-! ### Groups -/

/-- One `UNWIND`: what is unwound, and the variable of its items. -/
structure Unwind where
  source : String
  element : String
deriving DecidableEq, Repr

def Unwind.text (u : Unwind) : String := "UNWIND " ++ u.source ++ " AS " ++ u.element

/-- The unwinds after the first, each from the element before it. -/
def unwindsFrom (owner : String) : List Step → List Unwind
  | [] => []
  | s :: rest =>
    let element := s.elementAfter owner
    ⟨owner ++ "." ++ s.field ++ "." ++ s.action.text, element⟩ :: unwindsFrom element rest

/-- One unwind a step: the first from the root arguments. -/
def unwinds (root : String) : List Step → List Unwind
  | [] => []
  | s :: rest =>
    let element := s.elementAfter root
    ⟨"\x7bvariables\x7d." ++ s.field ++ "." ++ s.action.text, element⟩ ::
      unwindsFrom element rest

structure Group where
  /-- The root model. -/
  root : String
  /-- The path before its last step. -/
  above : List Step
  /-- The last step. -/
  step : Step
  /-- What the owner is found by. -/
  owner : List KeyBinding
  /-- What the element is found by. -/
  target : List KeyBinding
  /-- The template that puts the edge. -/
  relation : Template
  /-- The template that creates the element, if it is created. -/
  creation : Option Template
deriving DecidableEq, Repr

namespace Group

def path (g : Group) : List Step := g.above ++ [g.step]

/-- The variable of the element. -/
def element (g : Group) : String := elementAt g.root g.path

/-- Puts the edge. -/
def relationCall (g : Group) : String :=
  "CALL graphql.execute('" ++ g.relation.text ++ "', \x7b where: \x7b " ++ bindingsText g.owner ++
    " \x7d, " ++ g.step.field ++ ": [\x7b" ++ bindingsText g.target ++
    "\x7d] \x7d) YIELD result AS " ++ g.relation.mutation ++ g.element ++ "Result"

/-- Creates the element. -/
def creationCall (g : Group) (template : Template) : String :=
  "CALL graphql.execute('" ++ template.text ++ "', " ++ g.element ++ ") YIELD result AS create" ++
    g.element ++ "Result"

/-- The lines of a group. The first forgets the rows of the group before. -/
def lines (g : Group) : List String :=
  ["WITH COUNT(*) AS SCOPE"] ++ (unwinds g.root g.path).map Unwind.text ++
    (g.creation.map g.creationCall).toList ++ [g.relationCall]

/-- The text of a group, which begins with a line break. -/
def text (g : Group) : String := "\n" ++ "\n".intercalate g.lines

end Group

theorem unwindsFrom_length (owner : String) (path : List Step) :
    (unwindsFrom owner path).length = path.length := by
  induction path generalizing owner with
  | nil => rfl
  | cons s rest ih => simp [unwindsFrom, ih]

/-- One unwind for each step. -/
theorem unwinds_length (root : String) (path : List Step) :
    (unwinds root path).length = path.length := by
  cases path with
  | nil => rfl
  | cons s rest => simp [unwinds, unwindsFrom_length]

end GraphqlCypher
