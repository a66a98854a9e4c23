import GraphqlCypher.Augment.Options
import GraphqlCypher.Schema.Index

/-! What the generated parts are made from: a document whose models are in normal
form, with its indexes. -/
namespace GraphqlCypher.Schema

/-- A prepared document, its indexes, and what to generate. -/
structure Scope where
  document : Document
  index : TypeIndex
  roots : RootIndex
  options : AugmentOptions

namespace Scope

def isModel (S : Scope) (name : String) : Bool := S.index.isModel name

def isPlain (S : Scope) (name : String) : Bool := S.index.isPlain name

def model? (S : Scope) (name : String) : Option ObjectType := S.index.model? S.document name

/-- The models, in order. -/
def models (S : Scope) : List ObjectType := (S.index.modelTypes S.document).map Prod.snd

/-- Whether a field leads to a model. -/
def leadsToModel (S : Scope) (f : Field) : Bool := S.isModel f.typeName

/-- The fields that hold a value of their own: not the internal id, and not typed by
a model. -/
def valueFields (S : Scope) (m : ObjectType) : List Field :=
  m.fields.filter fun f => !f.isInternalId && !S.leadsToModel f

end Scope

/-- Of the items with one key the first, and none whose key is taken. -/
def freshBy {α : Type} (key : α → String) (taken : List String) : List α → List α
  | [] => []
  | a :: rest =>
    if taken.contains (key a) then freshBy key taken rest
    else a :: freshBy key (key a :: taken) rest

theorem not_mem_of_mem_freshBy {α : Type} (key : α → String) (taken : List String)
    (items : List α) (a : α) (h : a ∈ freshBy key taken items) : key a ∉ taken := by
  induction items generalizing taken with
  | nil => simp [freshBy] at h
  | cons b rest ih =>
    rw [freshBy] at h
    split at h
    · exact ih taken h
    · next hb =>
      rcases List.mem_cons.1 h with rfl | h
      · simpa using hb
      · have := ih _ h
        simp only [List.mem_cons, not_or] at this
        exact this.2

/-- No key is left twice. -/
theorem nodup_freshBy {α : Type} (key : α → String) (taken : List String) (items : List α) :
    ((freshBy key taken items).map key).Nodup := by
  induction items generalizing taken with
  | nil => simp [freshBy]
  | cons b rest ih =>
    rw [freshBy]
    split
    · exact ih taken
    · rw [List.map_cons, List.nodup_cons]
      refine ⟨?_, ih _⟩
      intro hmem
      obtain ⟨a, ha, e⟩ := List.mem_map.1 hmem
      have := not_mem_of_mem_freshBy key _ _ a ha
      simp [e] at this

end GraphqlCypher.Schema
