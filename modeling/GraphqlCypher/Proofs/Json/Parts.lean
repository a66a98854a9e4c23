import GraphqlCypher.Json.Basic
import GraphqlCypher.Proofs.Entries

/-! The parts of a value, and how deeply they are nested.

A value has as many parts as `Json.size` counts (`length_parts`); the parts of an entry or of
an element are parts of the whole, and are nested less deeply. -/
namespace GraphqlCypher.Json

mutual

/-- All values in a value, itself included. -/
def parts : Json → List Json
  | .array items => .array items :: partsOfItems items
  | .object entries => .object entries :: partsOfEntries entries
  | v => [v]

def partsOfItems : List Json → List Json
  | [] => []
  | v :: rest => v.parts ++ partsOfItems rest

def partsOfEntries : List (String × Json) → List Json
  | [] => []
  | (_, v) :: rest => v.parts ++ partsOfEntries rest

end

mutual

/-- How many lists and objects lie around the innermost part. -/
def nesting : Json → Nat
  | .array items => 1 + nestingOfItems items
  | .object entries => 1 + nestingOfEntries entries
  | _ => 0

def nestingOfItems : List Json → Nat
  | [] => 0
  | v :: rest => max v.nesting (nestingOfItems rest)

def nestingOfEntries : List (String × Json) → Nat
  | [] => 0
  | (_, v) :: rest => max v.nesting (nestingOfEntries rest)

end

/-! ### Parts -/

mutual

/-- The size of a value is the number of its parts. -/
theorem length_parts : (v : Json) → v.parts.length = v.size
  | .null | .bool _ | .number _ | .string _ => rfl
  | .array items => by
    rw [parts, size, List.length_cons, length_partsOfItems items, Nat.add_comm]
  | .object entries => by
    rw [parts, size, List.length_cons, length_partsOfEntries entries, Nat.add_comm]

theorem length_partsOfItems : (items : List Json) →
    (partsOfItems items).length = sizeItems items
  | [] => rfl
  | v :: rest => by
    rw [partsOfItems, sizeItems, List.length_append, length_parts v, length_partsOfItems rest]

theorem length_partsOfEntries : (entries : List (String × Json)) →
    (partsOfEntries entries).length = sizeEntries entries
  | [] => rfl
  | (_, v) :: rest => by
    rw [partsOfEntries, sizeEntries, List.length_append, length_parts v,
      length_partsOfEntries rest]

end

theorem mem_parts_self (v : Json) : v ∈ v.parts := by
  cases v <;> exact List.mem_cons_self

theorem parts_subset_of_mem {entries : Object} {k : String} {v : Json} (h : (k, v) ∈ entries) :
    v.parts ⊆ (Json.object entries).parts := by
  suffices v.parts ⊆ partsOfEntries entries from fun x hx => List.mem_cons_of_mem _ (this hx)
  induction entries with
  | nil => cases h
  | cons e rest ih =>
    obtain ⟨k', v'⟩ := e
    intro x hx
    rcases List.mem_cons.1 h with h | h
    · cases h
      exact List.mem_append_left _ hx
    · exact List.mem_append_right _ (ih h hx)

theorem parts_subset_of_mem_elements {v e : Json} (h : e ∈ v.elements) : e.parts ⊆ v.parts := by
  cases v with
  | array items =>
    suffices e.parts ⊆ partsOfItems items from fun x hx => List.mem_cons_of_mem _ (this hx)
    change e ∈ items at h
    induction items with
    | nil => cases h
    | cons item rest ih =>
      intro x hx
      rcases List.mem_cons.1 h with h | h
      · cases h
        exact List.mem_append_left _ hx
      · exact List.mem_append_right _ (ih h hx)
  | _ =>
    obtain rfl := List.mem_singleton.1 h
    exact List.Subset.refl _

/-! ### Nesting -/

theorem nesting_lt_of_mem {entries : Object} {k : String} {v : Json} (h : (k, v) ∈ entries) :
    v.nesting < (Json.object entries).nesting := by
  rw [nesting]
  suffices v.nesting ≤ nestingOfEntries entries by omega
  induction entries with
  | nil => cases h
  | cons e rest ih =>
    obtain ⟨k', v'⟩ := e
    rw [nestingOfEntries]
    rcases List.mem_cons.1 h with h | h
    · cases h
      exact Nat.le_max_left ..
    · exact Nat.le_trans (ih h) (Nat.le_max_right ..)

theorem nesting_le_of_mem_elements {v e : Json} (h : e ∈ v.elements) : e.nesting ≤ v.nesting := by
  cases v with
  | array items =>
    change e ∈ items at h
    rw [nesting]
    suffices e.nesting ≤ nestingOfItems items by omega
    induction items with
    | nil => cases h
    | cons item rest ih =>
      rw [nestingOfItems]
      rcases List.mem_cons.1 h with h | h
      · cases h
        exact Nat.le_max_left ..
      · exact Nat.le_trans (ih h) (Nat.le_max_right ..)
  | _ =>
    obtain rfl := List.mem_singleton.1 h
    exact Nat.le_refl _

end GraphqlCypher.Json
