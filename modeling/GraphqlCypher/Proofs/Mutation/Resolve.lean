import GraphqlCypher.Mutation.Reconcile
import GraphqlCypher.Proofs.Entries
import GraphqlCypher.Proofs.Mutation.Branches
import GraphqlCypher.Proofs.Traversal

/-! How elements are reconciled, one step at a time.

An element is first looked up (`Persisted.found`) and then its relations are worked
through, in the order of the model. As relations are different fields, the order does not
matter: each becomes what `Persisted.settled` makes of the value that stood there at first,
and all other keys stay (`Persisted.relations_settle`).

All that can fail on the way is the look-up of a model, or the bound on the depth
(`Persisted.isOfElements_of_resolve_error`). -/
namespace GraphqlCypher

/-- What can go wrong with an element. -/
def Failure.isOfElements : Failure → Bool
  | .endless | .unknownModel _ => true
  | _ => false

namespace Persisted

variable {P : Persisted} {resolve : Resolver}

/-- What an element is before its relations are worked through. -/
def found (P : Persisted) (model : String) : NestedAction → Json.Object → Json.Object
  | .create => P.created model
  | .connect => P.connected model

theorem element_object (model : String) (action : NestedAction) (arguments : Json.Object) :
    P.element resolve model action (.object arguments) =
      (resolve model (P.found model action arguments)).map Json.object := by
  cases action <;> rfl

/-! ### Relations -/

/-- What an object under a relation is when it supplies nothing. -/
def unsupplied (nested : Json.Object) : Json.Object :=
  Entries.swapRemove (Entries.swapRemove nested NestedAction.create.text)
    NestedAction.connect.text

/-- What becomes of the value under a relation. -/
def settled (P : Persisted) (resolve : Resolver) (related : String) :
    Option Json → Except Failure (Option Json)
  | some (.object nested) => do
    let created ← P.elements resolve related .create nested
    let connected ← P.elements resolve related .connect nested
    return some ((joined? created connected).getD (.object (unsupplied nested)))
  | v => .ok v

/-- Relations of an element are settled, and nothing else happens to it. -/
structure Settles (P : Persisted) (resolve : Resolver) (relations : Entries String)
    (arguments out : Json.Object) : Prop where
  keys : Entries.keys out = Entries.keys arguments
  others : ∀ k, k ∉ Entries.keys relations → Entries.get? out k = Entries.get? arguments k
  settled : ∀ field related, (field, related) ∈ relations →
    P.settled resolve related (Entries.get? arguments field) = .ok (Entries.get? out field)

/-- Something stands at a relation afterwards just when something stood there. -/
theorem isSome_of_settled {related : String} {v w : Option Json}
    (h : P.settled resolve related v = .ok w) : w.isSome = v.isSome := by
  unfold settled at h
  split at h
  · next nested =>
    obtain ⟨created, -, h⟩ := ok_of_bind h
    obtain ⟨connected, -, h⟩ := ok_of_bind h
    cases h
    rfl
  · cases h
    rfl

theorem relation_eq (arguments : Json.Object) (field related : String) :
    P.relation resolve arguments (field, related) =
      (P.settled resolve related (Entries.get? arguments field)).map fun v =>
        v.elim arguments (Entries.insert arguments field) := by
  unfold relation settled
  dsimp only
  cases harg : Entries.get? arguments field with
  | none => rfl
  | some v =>
    have same : (Except.ok arguments : Except Failure Json.Object) =
        .ok (Entries.insert arguments field v) := by
      rw [Entries.insert_eq_self harg]
    cases v with
    | object nested =>
      dsimp only
      rcases P.elements resolve related .create nested with e | created
      · rfl
      · rcases P.elements resolve related .connect nested with e | connected <;> rfl
    | _ => exact same

theorem relation_settles {arguments : Json.Object} {field related : String} {v : Option Json}
    (h : P.settled resolve related (Entries.get? arguments field) = .ok v) :
    ∃ out, P.relation resolve arguments (field, related) = .ok out ∧
      P.Settles resolve [(field, related)] arguments out := by
  have present := isSome_of_settled h
  refine ⟨_, by rw [relation_eq, h]; rfl, ?_, ?_, ?_⟩
  · cases v with
    | none => rfl
    | some v =>
      obtain ⟨w, hw⟩ := Option.isSome_iff_exists.1 present.symm
      exact (Entries.keys_insert _ _ _).trans (if_pos (List.mem_map_of_mem (Entries.mem_of_get? hw)))
  · intro k hk
    cases v with
    | none => rfl
    | some v => exact Entries.get?_insert_ne _ v fun e => hk (e ▸ List.mem_cons_self)
  · intro field' related' hmem
    obtain ⟨rfl, rfl⟩ := Prod.mk.inj (List.mem_singleton.1 hmem)
    rw [h]
    cases v with
    | none => exact congrArg _ (Option.not_isSome_iff_eq_none.1 (by simp [← present])).symm
    | some v => exact congrArg _ (Entries.get?_insert_self _ _ v).symm

/-- **Every relation is settled on its own**: if each can be, all are, and nothing else
happens to the element. -/
theorem relations_settle {relations : Entries String} {arguments : Json.Object}
    (distinct : (Entries.keys relations).Nodup)
    (h : ∀ field related, (field, related) ∈ relations →
      ∃ v, P.settled resolve related (Entries.get? arguments field) = .ok v) :
    ∃ out, relations.foldlM (P.relation resolve) arguments = .ok out ∧
      P.Settles resolve relations arguments out := by
  induction relations generalizing arguments with
  | nil => exact ⟨arguments, rfl, rfl, fun _ _ => rfl, nofun⟩
  | cons entry rest ih =>
    obtain ⟨field, related⟩ := entry
    obtain ⟨fresh, distinct⟩ := List.nodup_cons.1 distinct
    obtain ⟨v, hv⟩ := h field related List.mem_cons_self
    obtain ⟨next, hnext, first⟩ := relation_settles hv
    -- The other relations are different fields, so they are still what they were at first.
    have same : ∀ field' related', (field', related') ∈ rest →
        Entries.get? next field' = Entries.get? arguments field' := by
      intro field' related' hmem
      refine first.others field' fun hkey => fresh ?_
      rw [← List.mem_singleton.1 hkey]
      exact List.mem_map_of_mem hmem
    obtain ⟨out, hout, later⟩ := ih distinct fun field' related' hmem => by
      rw [same field' related' hmem]
      exact h field' related' (List.mem_cons_of_mem _ hmem)
    refine ⟨out, by rw [List.foldlM_cons, hnext]; exact hout, ?_, ?_, ?_⟩
    · rw [later.keys, first.keys]
    · intro k hk
      obtain ⟨hne, hrest⟩ := not_or.1 (mt List.mem_cons.2 hk)
      rw [later.others k hrest, first.others k (mt List.mem_singleton.1 hne)]
    · intro field' related' hmem
      rcases List.mem_cons.1 hmem with heq | hmem
      · cases heq
        rw [later.others field fresh]
        exact first.settled field related (List.mem_singleton.2 rfl)
      · rw [← same field' related' hmem]
        exact later.settled field' related' hmem

/-- A reconciled element of a known model is one whose relations are settled. -/
theorem resolve_settles {depth : Nat} {model : String} {info : ModelInfo}
    {arguments : Json.Object} (hinfo : P.catalog.model model = .ok info)
    (distinct : (Entries.keys info.relations).Nodup)
    (h : ∀ field related, (field, related) ∈ info.relations →
      ∃ v, P.settled (P.resolve depth) related (Entries.get? arguments field) = .ok v) :
    ∃ out, P.resolve (depth + 1) model arguments = .ok out ∧
      P.Settles (P.resolve depth) info.relations arguments out := by
  obtain ⟨out, hout, settles⟩ := relations_settle distinct h
  refine ⟨out, ?_, settles⟩
  change P.relations (P.resolve depth) model arguments = .ok out
  unfold relations
  rw [hinfo]
  exact hout

/-! ### Elements -/

/-- An object stands where an object stood, and anything else stays. -/
inductive ElementBecomes (R : Json.Object → Json.Object → Prop) : Json → Json → Prop where
  | object {arguments result : Json.Object} (h : R arguments result) :
    ElementBecomes R (.object arguments) (.object result)
  | other {v : Json} (h : ∀ arguments, v ≠ .object arguments) : ElementBecomes R v v

/-- A list stands where a list stood, with an element for each in its place. -/
inductive SupplyBecomes (R : Json.Object → Json.Object → Prop) : Json → Json → Prop where
  | list {items results : List Json} (each : List.Forall₂ (ElementBecomes R) items results) :
    SupplyBecomes R (.array items) (.array results)
  | single {v w : Json} (single : ∀ items, v ≠ .array items) (element : ElementBecomes R v w) :
    SupplyBecomes R v w

section
variable {R : Json.Object → Json.Object → Prop} {related : String} {action : NestedAction}

theorem exists_element {e : Json}
    (h : ∀ o, e = .object o → ∃ r, resolve related (P.found related action o) = .ok r ∧ R o r) :
    ∃ w, P.element resolve related action e = .ok w ∧ ElementBecomes R e w := by
  cases e with
  | object o =>
    obtain ⟨r, hr, hR⟩ := h o rfl
    exact ⟨.object r, by rw [element_object, hr]; rfl, .object hR⟩
  | _ => exact ⟨_, rfl, .other (by simp)⟩

/-- If every object that an action supplies can be reconciled, so can all it supplies. -/
theorem exists_elements {nested : Json.Object}
    (h : ∀ v, action.given? nested = some v → ∀ o, .object o ∈ v.elements →
      ∃ r, resolve related (P.found related action o) = .ok r ∧ R o r) :
    ∃ w, P.elements resolve related action nested = .ok w ∧
      Option.Rel (SupplyBecomes R) (action.given? nested) w := by
  have given : Json.given? (Entries.get? nested action.text) = action.given? nested := rfl
  unfold elements
  rw [given]
  split
  · next hnone =>
    rw [hnone]
    exact ⟨none, rfl, .none⟩
  · next items hitems =>
    have each : ∀ e ∈ items, ∃ w, P.element resolve related action e = .ok w ∧
        ElementBecomes R e w :=
      fun e he => exists_element fun o ho => h _ hitems o (ho ▸ he)
    obtain ⟨results, hresults, each⟩ := exists_mapM_forall₂ each
    rw [hitems, hresults]
    exact ⟨_, rfl, .some (.list each)⟩
  · next v hsingle hv =>
    have elements : v.elements = [v] := by
      cases v with
      | array items => exact absurd rfl (hsingle items)
      | _ => rfl
    obtain ⟨w, hw, element⟩ : ∃ w, P.element resolve related action v = .ok w ∧
        ElementBecomes R v w := exists_element fun o ho =>
      h v hv o (by rw [elements, ho]; exact List.mem_cons_self)
    rw [hv, hw]
    exact ⟨_, rfl, .some (.single (fun items e => hsingle items e) element)⟩

/-- If all that both actions supply can be reconciled, so can the relation. -/
theorem exists_settled {v : Option Json}
    (h : ∀ nested (action : NestedAction) w, v = some (.object nested) →
      action.given? nested = some w → ∀ o, .object o ∈ w.elements →
        ∃ r, resolve related (P.found related action o) = .ok r) :
    ∃ w, P.settled resolve related v = .ok w := by
  unfold settled
  split
  · next nested =>
    have each (action : NestedAction) : ∃ w, P.elements resolve related action nested = .ok w ∧
        Option.Rel (SupplyBecomes fun _ _ => True) (action.given? nested) w :=
      exists_elements fun w hw o ho =>
        (h nested action w rfl hw o ho).imp fun r hr => ⟨hr, trivial⟩
    obtain ⟨created, hcreated, -⟩ := each .create
    obtain ⟨connected, hconnected, -⟩ := each .connect
    rw [hcreated, hconnected]
    exact ⟨_, rfl⟩
  · exact ⟨_, rfl⟩

end

/-! ### Failures -/

section
variable {related : String} {action : NestedAction}

theorem exists_error_of_element {v : Json} {e : Failure}
    (h : P.element resolve related action v = .error e) :
    ∃ o, v = .object o ∧ resolve related (P.found related action o) = .error e := by
  cases v with
  | object o =>
    rw [element_object] at h
    exact ⟨o, rfl, error_of_map h⟩
  | _ => cases h

theorem exists_error_of_elements {nested : Json.Object} {e : Failure}
    (h : P.elements resolve related action nested = .error e) :
    ∃ v o, action.given? nested = some v ∧ .object o ∈ v.elements ∧
      resolve related (P.found related action o) = .error e := by
  unfold elements at h
  split at h
  · cases h
  · next items hitems =>
    obtain ⟨v, hv, failed⟩ := exists_of_mapM_error (error_of_map h)
    obtain ⟨o, rfl, error⟩ := exists_error_of_element failed
    exact ⟨_, o, hitems, hv, error⟩
  · next v _ hv =>
    obtain ⟨o, rfl, failed⟩ := exists_error_of_element (error_of_map h)
    exact ⟨_, o, hv, List.mem_cons_self, failed⟩

theorem exists_error_of_settled {v : Option Json} {e : Failure}
    (h : P.settled resolve related v = .error e) :
    ∃ nested, ∃ (action : NestedAction), ∃ w o, v = some (.object nested) ∧
      action.given? nested = some w ∧ .object o ∈ w.elements ∧
        resolve related (P.found related action o) = .error e := by
  unfold settled at h
  split at h
  · next nested =>
    rcases error_of_bind h with h | ⟨created, -, h⟩
    · exact ⟨nested, .create, (exists_error_of_elements h).imp fun w => .imp fun o ho => ⟨rfl, ho⟩⟩
    · rcases error_of_bind h with h | ⟨connected, -, h⟩
      · exact ⟨nested, .connect, (exists_error_of_elements h).imp fun w => .imp fun o ho => ⟨rfl, ho⟩⟩
      · cases h
  · cases h

end

theorem isOfElements_of_resolve_error (depth : Nat) {model : String} {arguments : Json.Object}
    {e : Failure} (h : P.resolve depth model arguments = .error e) : e.isOfElements := by
  induction depth generalizing model arguments e with
  | zero =>
    cases h
    rfl
  | succ depth ih =>
    change P.relations (P.resolve depth) model arguments = .error e at h
    unfold relations Catalog.model at h
    split at h
    · obtain ⟨out, ⟨field, related⟩, -, failed⟩ := exists_of_foldlM_error h
      rw [relation_eq] at failed
      obtain ⟨_, _, _, _, -, -, -, failed⟩ := exists_error_of_settled (error_of_map failed)
      exact ih failed
    · cases h
      rfl

end Persisted

end GraphqlCypher
