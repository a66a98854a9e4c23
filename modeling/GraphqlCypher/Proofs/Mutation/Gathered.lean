import GraphqlCypher.Proofs.Mutation.Levels

/-! What stands at a relation when its element was reconciled.

A relation gathers what it supplies: what was created under it, and behind it what was
connected (`Persisted.Gathers`). It does so if one action alone supplies something, or if it
creates a list (`gathers_of_settled`). A single new element is no list, and what is connected
besides is laid over it or lost (`Blends`).

The elements that were gathered are found at the numbers that they had among all that their
actions supplied (`Gathers.element`). -/
namespace GraphqlCypher

namespace Persisted

variable {P : Persisted} {resolve : Resolver} {related : String}

/-! ### What was reconciled -/

theorem ElementBecomes.mono {R R' : Json.Object → Json.Object → Prop} {v w : Json}
    (h : ElementBecomes R v w) (le : ∀ o r, R o r → R' o r) : ElementBecomes R' v w := by
  cases h with
  | object h => exact .object (le _ _ h)
  | other h => exact .other h

theorem SupplyBecomes.mono {R R' : Json.Object → Json.Object → Prop} {v w : Json}
    (h : SupplyBecomes R v w) (le : ∀ o r, R o r → R' o r) : SupplyBecomes R' v w := by
  cases h with
  | list each => exact .list (each.imp fun _ _ h => h.mono le)
  | single single element => exact .single single (element.mono le)

/-- There is one element afterwards for each that was supplied. -/
theorem SupplyBecomes.elements {R : Json.Object → Json.Object → Prop} {v w : Json}
    (h : SupplyBecomes R v w) : List.Forall₂ (ElementBecomes R) v.elements w.elements := by
  cases h with
  | list each => exact each
  | single single element =>
    have alone : ∀ {x : Json}, (∀ items, x ≠ .array items) → x.elements = [x] := by
      intro x hx
      cases x with
      | array items => exact absurd rfl (hx items)
      | _ => rfl
    have result : ∀ items, w ≠ .array items := by
      cases element with
      | object h => simp
      | other h => exact single
    rw [alone single, alone result]
    exact .cons element .nil

theorem elementBecomes_of_ok {action : NestedAction} {v w : Json}
    (h : P.element resolve related action v = .ok w) :
    ElementBecomes (fun o r => resolve related (P.found related action o) = .ok r) v w := by
  cases v with
  | object o =>
    rw [element_object] at h
    obtain ⟨r, hr, rfl⟩ := ok_of_map h
    exact .object hr
  | _ =>
    cases h
    exact .other (by simp)

theorem supplyBecomes_of_ok {action : NestedAction} {nested : Json.Object} {w : Option Json}
    (h : P.elements resolve related action nested = .ok w) :
    Option.Rel (SupplyBecomes fun o r => resolve related (P.found related action o) = .ok r)
      (action.given? nested) w := by
  have given : Json.given? (Entries.get? nested action.text) = action.given? nested := rfl
  unfold elements at h
  rw [given] at h
  split at h
  · next hnone =>
    cases h
    rw [hnone]
    exact .none
  · next items hitems =>
    obtain ⟨results, hresults, rfl⟩ := ok_of_map h
    rw [hitems]
    exact .some (.list ((mapM_ok_iff.1 hresults).imp fun _ _ h => elementBecomes_of_ok h))
  · next v hsingle hv =>
    obtain ⟨w, hw, rfl⟩ := ok_of_map h
    rw [hv]
    exact .some (.single (fun items e => hsingle items e) (elementBecomes_of_ok hw))

/-- The relations of a reconciled element were settled. -/
theorem exists_settled_of_relations {relations : Entries String} {arguments out : Json.Object}
    (distinct : (Entries.keys relations).Nodup)
    (h : relations.foldlM (P.relation resolve) arguments = .ok out) :
    ∀ field related, (field, related) ∈ relations →
      ∃ v, P.settled resolve related (Entries.get? arguments field) = .ok v := by
  induction relations generalizing arguments with
  | nil => exact nofun
  | cons entry rest ih =>
    obtain ⟨field, related⟩ := entry
    obtain ⟨fresh, distinct⟩ := List.nodup_cons.1 distinct
    rw [List.foldlM_cons] at h
    obtain ⟨next, hnext, h⟩ := ok_of_bind h
    intro field' related' hmem
    rcases List.mem_cons.1 hmem with heq | hmem
    · cases heq
      rw [relation_eq] at hnext
      obtain ⟨v, hv, -⟩ := ok_of_map hnext
      exact ⟨v, hv⟩
    · have other : field ≠ field' := by
        rintro rfl
        exact fresh (List.mem_map.2 ⟨_, hmem, rfl⟩)
      rw [← get?_of_relation hnext other]
      exact ih distinct h field' related' hmem

/-- An element of a known model is reconciled by settling its relations. -/
theorem Reconciles.settles (regular : P.catalog.Regular) {model : String} {info : ModelInfo}
    {action : NestedAction} {arguments out : Json.Object}
    (hinfo : P.catalog.model model = .ok info) (h : P.Reconciles model action arguments out) :
    ∃ depth, P.Settles (P.resolve depth) info.relations (P.found model action arguments) out := by
  obtain ⟨depth, h⟩ := h
  cases depth with
  | zero => cases h
  | succ depth =>
    have distinct := (regular model info hinfo).1
    change P.relations (P.resolve depth) model (P.found model action arguments) = .ok out at h
    unfold relations at h
    rw [hinfo] at h
    obtain ⟨out', hout, settles⟩ :=
      relations_settle distinct (exists_settled_of_relations distinct h)
    cases h.symm.trans hout
    exact ⟨depth, settles⟩

/-! ### What is gathered -/

/-- A relation creates a single element and connects others besides. -/
def Blends (nested : Json.Object) : Prop :=
  ∃ v w, NestedAction.create.given? nested = some v ∧ NestedAction.connect.given? nested = some w ∧
    ∀ items, v ≠ .array items

/-- What stands at a relation: what its one action supplied, or a list of what was created
and then of what was connected. -/
inductive Gathers (P : Persisted) (related : String) (nested : Json.Object) : Json → Prop where
  | alone {action : NestedAction} {v w : Json} (given : action.given? nested = some v)
      (others : ∀ a, a ≠ action → a.given? nested = none)
      (supply : SupplyBecomes (P.Reconciles related action) v w) : Gathers P related nested w
  | both {items created : List Json} {v w : Json}
      (creates : NestedAction.create.given? nested = some (.array items))
      (connects : NestedAction.connect.given? nested = some v)
      (each : List.Forall₂ (ElementBecomes (P.Reconciles related .create)) items created)
      (connected : SupplyBecomes (P.Reconciles related .connect) v w) :
      Gathers P related nested (.array (created ++ w.elements))

/-- What both actions supplied is joined to what the relation gathers, unless it blends. -/
theorem gathers_joined {nested : Json.Object} {created connected : Option Json} {rest : Json}
    (creates : Option.Rel (SupplyBecomes (P.Reconciles related .create))
      (NestedAction.create.given? nested) created)
    (connects : Option.Rel (SupplyBecomes (P.Reconciles related .connect))
      (NestedAction.connect.given? nested) connected)
    (supplied : ∃ a : NestedAction, a.given? nested ≠ none) (apart : ¬ Blends nested) :
    P.Gathers related nested ((joined? created connected).getD rest) := by
  generalize hcreate : NestedAction.create.given? nested = v at creates
  generalize hconnect : NestedAction.connect.given? nested = w at connects
  cases creates with
  | none =>
    cases connects with
    | none =>
      obtain ⟨a, ha⟩ := supplied
      cases a <;> contradiction
    | some supply =>
      refine .alone hconnect (fun a ha => ?_) supply
      cases a with
      | create => exact hcreate
      | connect => exact absurd rfl ha
  | some supply =>
    cases connects with
    | none =>
      refine .alone hcreate (fun a ha => ?_) supply
      cases a with
      | create => exact absurd rfl ha
      | connect => exact hconnect
    | some connected =>
      cases supply with
      | list each => exact .both hcreate hconnect each connected
      | single single _ => exact absurd ⟨_, _, hcreate, hconnect, single⟩ apart

/-- A relation that is settled gathers what it supplies, unless that blends. -/
theorem gathers_of_settled {depth : Nat} {nested : Json.Object} {w : Option Json}
    (h : P.settled (P.resolve depth) related (some (.object nested)) = .ok w)
    (supplied : ∃ a : NestedAction, a.given? nested ≠ none) (apart : ¬ Blends nested) :
    ∃ x, w = some x ∧ P.Gathers related nested x := by
  unfold settled at h
  obtain ⟨created, hcreated, h⟩ := ok_of_bind h
  obtain ⟨connected, hconnected, h⟩ := ok_of_bind h
  cases h
  have reconciled : ∀ {action : NestedAction} {v w : Option Json},
      Option.Rel (SupplyBecomes fun o r =>
        P.resolve depth related (P.found related action o) = .ok r) v w →
      Option.Rel (SupplyBecomes (P.Reconciles related action)) v w := by
    intro action v w h
    cases h with
    | none => exact .none
    | some h => exact .some (h.mono fun _ _ h => ⟨depth, h⟩)
  exact ⟨_, rfl, gathers_joined (reconciled (supplyBecomes_of_ok hcreated))
    (reconciled (supplyBecomes_of_ok hconnected)) supplied apart⟩

/-- How many elements stand before those of an action: connected ones stand behind new ones. -/
def numberBefore (nested : Json.Object) : NestedAction → Nat
  | .create => 0
  | .connect => ((NestedAction.create.given? nested).map fun v => v.elements.length).getD 0

theorem exists_of_forall₂ {R : Json.Object → Json.Object → Prop} {l l' : List Json} {i : Nat}
    {o : Json.Object} (h : List.Forall₂ (ElementBecomes R) l l') (hi : l[i]? = some (.object o)) :
    ∃ r, l'[i]? = some (.object r) ∧ R o r := by
  induction h generalizing i with
  | nil => cases hi
  | cons head _ ih =>
    cases i with
    | zero =>
      cases hi
      cases head with
      | object h => exact ⟨_, rfl, h⟩
      | other h => exact absurd rfl (h o)
    | succ i => exact ih hi

/-- Every element that was supplied is among those that were gathered. -/
theorem Gathers.element {nested o : Json.Object} {x v : Json} {action : NestedAction} {i : Nat}
    (h : P.Gathers related nested x) (given : action.given? nested = some v)
    (hi : v.elements[i]? = some (.object o)) :
    ∃ r, x.elements[numberBefore nested action + i]? = some (.object r) ∧
      P.Reconciles related action o r := by
  cases h with
  | @alone action' v' w given' others supply =>
    have same : action = action' := by
      by_contra hne
      cases (others action hne).symm.trans given
    subst same
    cases given'.symm.trans given
    have first : numberBefore nested action = 0 := by
      cases action with
      | create => rfl
      | connect => simp [numberBefore, others .create (by simp)]
    rw [first, Nat.zero_add]
    exact exists_of_forall₂ supply.elements hi
  | @both items created v' w creates connects each connected =>
    cases action with
    | create =>
      cases creates.symm.trans given
      obtain ⟨r, hr, reconciles⟩ := exists_of_forall₂ each hi
      refine ⟨r, ?_, reconciles⟩
      show (created ++ w.elements)[0 + i]? = _
      rw [Nat.zero_add, List.getElem?_append_left (List.getElem?_eq_some_iff.1 hr).1, hr]
    | connect =>
      cases connects.symm.trans given
      obtain ⟨r, hr, reconciles⟩ := exists_of_forall₂ connected.elements hi
      refine ⟨r, ?_, reconciles⟩
      have before : numberBefore nested .connect = created.length := by
        simp [numberBefore, creates, Json.elements, each.length_eq]
      show (created ++ w.elements)[_ + i]? = _
      rw [before, List.getElem?_append_right (Nat.le_add_right _ _), Nat.add_sub_cancel_left, hr]

end Persisted

end GraphqlCypher
