import GraphqlCypher.Augment.Options
import GraphqlCypher.Schema.Index

/-! Root types and the schema definition.

Every root that is enabled has an object type and is named by the schema
definition. What the document has already is kept as it is; what it lacks is added
at its end. -/
namespace GraphqlCypher.Schema

/-- Names the enabled roots that have no name yet. -/
def Roots.complete (o : AugmentOptions) (r : Roots) : Roots :=
  { r with
    query := r.query <|> if o.query then some Names.query else none
    mutation := r.mutation <|> if o.mutation then some Names.mutation else none }

theorem Roots.complete_idem (o : AugmentOptions) (r : Roots) :
    (r.complete o).complete o = r.complete o := by
  obtain ⟨ds, q, m, s⟩ := r
  simp only [complete]
  cases q <;> cases m <;> cases o.query <;> cases o.mutation <;> rfl

namespace Document

def hasRoots (d : Document) : Bool :=
  d.any fun
    | .roots _ => true
    | _ => false

def hasObject (d : Document) (name : String) : Bool := d.objects.any (·.name == name)

/-- Completes the first schema definition. -/
def completeRoots (o : AugmentOptions) : Document → Document
  | [] => []
  | .roots r :: rest => .roots (r.complete o) :: rest
  | other :: rest => other :: completeRoots o rest

/-- Completes the schema definition, or adds one if a root is enabled. -/
def withRoots (o : AugmentOptions) (d : Document) : Document :=
  if d.hasRoots then completeRoots o d
  else if o.query || o.mutation then d ++ [.roots (Roots.complete o {})]
  else d

/-- Adds an object type without fields if the document has none of the name. -/
def withObject (enabled : Bool) (name : String) (d : Document) : Document :=
  if enabled && !d.hasObject name then d ++ [.type (.object { name })] else d

/-- The document with the enabled roots. -/
def scaffold (o : AugmentOptions) (d : Document) : Document :=
  withObject o.mutation Names.mutation (withObject o.query Names.query (withRoots o d))

end Document

end GraphqlCypher.Schema
