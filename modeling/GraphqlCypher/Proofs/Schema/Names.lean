import GraphqlCypher.Schema.Index
import GraphqlCypher.Schema.Names

/-! Generated names apart.

What is generated for one model is not mistaken for what is generated for another, nor
one kind of thing for another: mutations begin differently, and the names of types end
differently (`TypeKind.name_injective`). -/
namespace GraphqlCypher.Schema

namespace Names

theorem createMutation_injective {a b : String} (h : createMutation a = createMutation b) :
    a = b := by
  have hlist := congrArg String.toList h
  simp only [createMutation, String.toList_append, List.append_cancel_left_eq] at hlist
  exact String.toList_inj.1 hlist

/-- Mutations that create begin otherwise than those that put edges. -/
theorem relationMutation_ne_createMutation (a field b : String) :
    relationMutation a field ≠ createMutation b := by
  intro h
  have hlist := congrArg String.toList h
  simp [createMutation, relationMutation] at hlist

end Names

/-! ### Generated types -/

/-- The kinds of types that are generated for a model. -/
inductive TypeKind where
  | ordering
  | filter
  | createInput
  | whereUniqueInput
  | createNested (arity : Arity)
  | connectNested (arity : Arity)
deriving DecidableEq, Repr

namespace TypeKind

def name : TypeKind → String → String
  | .ordering => Names.orderingType
  | .filter => Names.filterType
  | .createInput => Names.createInput
  | .whereUniqueInput => Names.whereUniqueInput
  | .createNested arity => fun model => Names.createNestedInput model arity
  | .connectNested arity => fun model => Names.connectNestedInput model arity

def all : List TypeKind :=
  [.ordering, .filter, .createInput, .whereUniqueInput, .createNested .one, .createNested .many,
    .connectNested .one, .connectNested .many]

theorem mem_all (k : TypeKind) : k ∈ all := by
  rcases k with _ | _ | _ | _ | ⟨_ | _⟩ | ⟨_ | _⟩ <;> decide

/-- What stands before the model's name. -/
def lead : TypeKind → String
  | .ordering | .filter => "_"
  | _ => ""

/-- What stands after it. -/
def suffix : TypeKind → String
  | .ordering => "Ordering"
  | .filter => "Filter"
  | .createInput => "CreateInput"
  | .whereUniqueInput => "WhereUniqueInput"
  | .createNested .one => "CreateOneInput"
  | .createNested .many => "CreateManyInput"
  | .connectNested .one => "ConnectOneInput"
  | .connectNested .many => "ConnectManyInput"

theorem name_eq (k : TypeKind) (model : String) : k.name model = k.lead ++ (model ++ k.suffix) := by
  rcases k with _ | _ | _ | _ | ⟨_ | _⟩ | ⟨_ | _⟩ <;>
    simp [name, lead, suffix, Names.orderingType, Names.filterType, Names.createInput,
      Names.whereUniqueInput, Names.createNestedInput, Names.connectNestedInput, Arity.text,
      String.append_assoc]

theorem eq_of_suffix {k k' : TypeKind} (h : k.suffix.toList <:+ k'.suffix.toList) : k = k' := by
  have each : ∀ k ∈ all, ∀ k' ∈ all, k.suffix.toList <:+ k'.suffix.toList → k = k' := by decide
  exact each k k.mem_all k' k'.mem_all h

/-- What a generated type's name ends in. -/
theorem suffix_name (k : TypeKind) (model : String) :
    k.suffix.toList <:+ (k.name model).toList := by
  rw [name_eq, String.toList_append, String.toList_append, ← List.append_assoc]
  exact List.suffix_append _ _

/-- The name of a generated type says which kind it is of and for which model. -/
theorem name_injective {k k' : TypeKind} {a b : String} (h : k.name a = k'.name b) :
    k = k' ∧ a = b := by
  have hkind : k = k' := by
    rcases List.suffix_or_suffix_of_suffix (k.suffix_name a) (h ▸ k'.suffix_name b) with h | h
    · exact eq_of_suffix h
    · exact (eq_of_suffix h).symm
  subst hkind
  rw [name_eq, name_eq] at h
  have hlist := congrArg String.toList h
  simp only [String.toList_append] at hlist
  refine ⟨rfl, String.toList_inj.1 ?_⟩
  simpa only [List.append_cancel_left_eq, List.append_cancel_right_eq] using hlist

/-- A generated type is no root. -/
theorem isRoot_name (k : TypeKind) (model : String) : TypeIndex.isRoot (k.name model) = false := by
  have each : ∀ k ∈ all, ∀ root ∈ [Names.query, Names.mutation],
      ¬ k.suffix.toList <:+ root.toList := by decide
  have hne : ∀ root ∈ [Names.query, Names.mutation], k.name model ≠ root := by
    intro root hroot e
    exact each k k.mem_all root hroot (e ▸ k.suffix_name model)
  simp only [TypeIndex.isRoot, Bool.or_eq_false_iff, beq_eq_false_iff_ne]
  exact ⟨hne _ (by simp), hne _ (by simp)⟩

end TypeKind

end GraphqlCypher.Schema
