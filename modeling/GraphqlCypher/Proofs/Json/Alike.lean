import GraphqlCypher.Json.Basic
import GraphqlCypher.Proofs.Entries
import Mathlib.Data.List.Forall2
import Mathlib.Data.Option.Basic

/-! Values that differ in their leaves only.

Alike values have the same shape: the same keys in the same order at every level, lists of
the same lengths, and `null` in the same places. What is looked up in alike objects is
alike (`rel_get?`), and giving both a key with alike values leaves them alike
(`AlikeObjects.insert`), so whoever only looks at shapes cannot tell them apart. -/
namespace GraphqlCypher.Json

/-- A string, a number or a boolean. -/
def isLeaf : Json → Bool
  | .bool _ | .number _ | .string _ => true
  | _ => false

/-- Two values of one shape: any leaf may stand for any other. -/
inductive Alike : Json → Json → Prop where
  | null : Alike .null .null
  | leaf {v v' : Json} (first : v.isLeaf = true) (second : v'.isLeaf = true) : Alike v v'
  | array {items items' : List Json} (each : List.Forall₂ Alike items items') :
      Alike (.array items) (.array items')
  | object {entries entries' : Object} (keys : Entries.keys entries = Entries.keys entries')
      (each : List.Forall₂ Alike (Entries.values entries) (Entries.values entries')) :
      Alike (.object entries) (.object entries')

/-- Two entries with one key and alike values. -/
def AlikeEntries (e e' : String × Json) : Prop := e.1 = e'.1 ∧ Alike e.2 e'.2

/-- Two objects, entry by entry. -/
abbrev AlikeObjects (o o' : Object) : Prop := List.Forall₂ AlikeEntries o o'

theorem alikeObjects_iff {o o' : Object} : AlikeObjects o o' ↔
    Entries.keys o = Entries.keys o' ∧
      List.Forall₂ Alike (Entries.values o) (Entries.values o') := by
  constructor
  · intro h
    induction h with
    | nil => exact ⟨rfl, .nil⟩
    | cons head _ ih => exact ⟨congrArg₂ List.cons head.1 ih.1, .cons head.2 ih.2⟩
  · intro h
    obtain ⟨keys, each⟩ := h
    induction o generalizing o' with
    | nil =>
      cases o' with
      | nil => exact .nil
      | cons e' rest' => cases keys
    | cons e rest ih =>
      cases o' with
      | nil => cases keys
      | cons e' rest' =>
        obtain ⟨hk, hkeys⟩ := List.cons.inj keys
        cases each with
        | cons head tail => exact .cons ⟨hk, head⟩ (ih hkeys tail)

theorem alike_object_iff {o o' : Object} : Alike (.object o) (.object o') ↔ AlikeObjects o o' := by
  rw [alikeObjects_iff]
  constructor
  · intro h
    cases h with
    | leaf first _ => cases first
    | object keys each => exact ⟨keys, each⟩
  · intro h
    exact .object h.1 h.2

theorem isNull_of_isLeaf {v : Json} (h : v.isLeaf = true) : v.isNull = false := by
  cases v with
  | null => cases h
  | bool _ | number _ | string _ | array _ | object _ => rfl

theorem Alike.isNull {v v' : Json} (h : Alike v v') : v.isNull = v'.isNull := by
  cases h with
  | leaf first second => rw [isNull_of_isLeaf first, isNull_of_isLeaf second]
  | null | array _ | object _ _ => rfl

namespace AlikeObjects

variable {o o' : Object}

theorem keys (h : AlikeObjects o o') : Entries.keys o = Entries.keys o' := (alikeObjects_iff.1 h).1

/-- What a key is looked up as is alike. -/
theorem rel_get? (h : AlikeObjects o o') (k : String) :
    Option.Rel Alike (Entries.get? o k) (Entries.get? o' k) := by
  induction h with
  | nil => exact .none
  | @cons e e' rest rest' head _ ih =>
    obtain ⟨k₁, v⟩ := e
    obtain ⟨k₂, v'⟩ := e'
    obtain ⟨rfl, hv⟩ := head
    rw [Entries.get?_cons, Entries.get?_cons]
    by_cases hk : k₁ = k
    · rw [if_pos hk, if_pos hk]
      exact .some hv
    · rw [if_neg hk, if_neg hk]
      exact ih

/-- Two objects stay alike when a key takes alike values. -/
theorem insert (h : AlikeObjects o o') (k : String) {v v' : Json} (hv : Alike v v') :
    AlikeObjects (Entries.insert o k v) (Entries.insert o' k v') := by
  induction h with
  | nil => exact .cons ⟨rfl, hv⟩ .nil
  | @cons e e' rest rest' head tail ih =>
    obtain ⟨k₁, w⟩ := e
    obtain ⟨k₂, w'⟩ := e'
    obtain ⟨rfl, hw⟩ := head
    rw [Entries.insert, Entries.insert]
    by_cases hk : k₁ = k
    · rw [if_pos hk, if_pos hk]
      exact .cons ⟨rfl, hv⟩ tail
    · rw [if_neg hk, if_neg hk]
      exact .cons ⟨rfl, hw⟩ ih

theorem ofList (h : AlikeObjects o o') : AlikeObjects (Entries.ofList o) (Entries.ofList o') := by
  have all : ∀ m m' : Object, AlikeObjects m m' →
      AlikeObjects (Entries.insertAll m o) (Entries.insertAll m' o') := by
    induction h with
    | nil => exact fun m m' hm => hm
    | @cons e e' rest rest' head _ ih =>
      intro m m' hm
      have one : AlikeObjects (Entries.insert m e.1 e.2) (Entries.insert m' e'.1 e'.2) :=
        head.1 ▸ insert hm e.1 head.2
      exact ih _ _ one
  exact all [] [] .nil

end AlikeObjects

theorem given?_some (v : Json) : given? (some v) = if v.isNull then none else some v := by
  cases v <;> rfl

/-- Nothing is given alike only to what is given nothing. -/
theorem rel_given? {v v' : Option Json} (h : Option.Rel Alike v v') :
    Option.Rel Alike (given? v) (given? v') := by
  cases h with
  | none => exact .none
  | @some v v' h =>
    rw [given?_some, given?_some, h.isNull]
    split
    · exact .none
    · exact .some h

end GraphqlCypher.Json
