import GraphqlCypher.Json.Basic
import GraphqlCypher.Proofs.Entries

/-! Values whose objects have each key once. -/
namespace GraphqlCypher.Json

/-- In a value, and in all values within it, objects have each key once. -/
inductive WellKeyed : Json → Prop where
  | null : WellKeyed .null
  | bool (b : Bool) : WellKeyed (.bool b)
  | number (n : Number) : WellKeyed (.number n)
  | string (s : String) : WellKeyed (.string s)
  | array {items : List Json} (each : ∀ v ∈ items, WellKeyed v) : WellKeyed (.array items)
  | object {entries : Object} (keys : (Entries.keys entries).Nodup)
      (each : ∀ e ∈ entries, WellKeyed e.2) : WellKeyed (.object entries)

namespace WellKeyed

theorem nodup_keys {entries : Object} (h : WellKeyed (.object entries)) :
    (Entries.keys entries).Nodup := by
  cases h with
  | object keys => exact keys

theorem of_mem {entries : Object} {e : String × Json} (h : WellKeyed (.object entries))
    (he : e ∈ entries) : WellKeyed e.2 := by
  cases h with
  | object _ each => exact each e he

theorem of_get? {entries : Object} {k : String} {v : Json} (h : WellKeyed (.object entries))
    (hv : Entries.get? entries k = some v) : WellKeyed v :=
  h.of_mem (Entries.mem_of_get? hv)

theorem of_mem_elements {v e : Json} (h : WellKeyed v) (he : e ∈ v.elements) : WellKeyed e := by
  cases h with
  | array each => exact each e he
  | null | bool _ | number _ | string _ | object _ _ =>
    obtain rfl := List.mem_singleton.1 he
    constructor <;> assumption

theorem empty : WellKeyed (.object []) := .object List.nodup_nil (by simp)

theorem insert {entries : Object} {k : String} {v : Json} (h : WellKeyed (.object entries))
    (hv : WellKeyed v) : WellKeyed (.object (Entries.insert entries k v)) := by
  refine .object (Entries.nodup_keys_insert entries k v h.nodup_keys) fun e he => ?_
  rcases Entries.mem_insert he with he | rfl
  · exact h.of_mem he
  · exact hv

/-- A new key may be added. -/
theorem append {entries : Object} {k : String} {v : Json} (h : WellKeyed (.object entries))
    (hk : k ∉ Entries.keys entries) (hv : WellKeyed v) :
    WellKeyed (.object (entries ++ [(k, v)])) := by
  rw [← Entries.insert_of_not_mem v hk]
  exact h.insert hv

end WellKeyed

/-! ### Checking values -/

mutual

/-- Whether every object in a value has each key once. -/
def isWellKeyed : Json → Bool
  | .array items => eachWellKeyed items
  | .object entries => decide (Entries.keys entries).Nodup && entriesWellKeyed entries
  | _ => true

def eachWellKeyed : List Json → Bool
  | [] => true
  | v :: rest => v.isWellKeyed && eachWellKeyed rest

def entriesWellKeyed : List (String × Json) → Bool
  | [] => true
  | (_, v) :: rest => v.isWellKeyed && entriesWellKeyed rest

end

mutual

theorem isWellKeyed_iff : (v : Json) → (v.isWellKeyed = true ↔ v.WellKeyed)
  | .null => ⟨fun _ => .null, fun _ => rfl⟩
  | .bool b => ⟨fun _ => .bool b, fun _ => rfl⟩
  | .number n => ⟨fun _ => .number n, fun _ => rfl⟩
  | .string s => ⟨fun _ => .string s, fun _ => rfl⟩
  | .array items => by
    rw [isWellKeyed, eachWellKeyed_iff items]
    exact ⟨.array, fun h v hv => h.of_mem_elements hv⟩
  | .object entries => by
    rw [isWellKeyed, Bool.and_eq_true, decide_eq_true_eq, entriesWellKeyed_iff entries]
    exact ⟨fun h => .object h.1 h.2, fun h => ⟨h.nodup_keys, fun e he => h.of_mem he⟩⟩

theorem eachWellKeyed_iff : (items : List Json) →
    (eachWellKeyed items = true ↔ ∀ v ∈ items, v.WellKeyed)
  | [] => by simp [eachWellKeyed]
  | v :: rest => by
    rw [eachWellKeyed, Bool.and_eq_true, isWellKeyed_iff v, eachWellKeyed_iff rest,
      List.forall_mem_cons]

theorem entriesWellKeyed_iff : (entries : List (String × Json)) →
    (entriesWellKeyed entries = true ↔ ∀ e ∈ entries, e.2.WellKeyed)
  | [] => by simp [entriesWellKeyed]
  | (k, v) :: rest => by
    rw [entriesWellKeyed, Bool.and_eq_true, isWellKeyed_iff v, entriesWellKeyed_iff rest,
      List.forall_mem_cons]

end

instance : DecidablePred WellKeyed := fun v => decidable_of_iff _ (isWellKeyed_iff v)

end GraphqlCypher.Json
