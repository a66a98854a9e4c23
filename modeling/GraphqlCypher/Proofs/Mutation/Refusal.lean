import GraphqlCypher.Proofs.Mutation.Acceptance

/-! Why a create mutation is refused.

`Catalog.Refused` says of arguments, without a word about walks, which failures they give
cause for: at the object itself, at what it supplies, or at an object below it. Where ids
never run out, a walk fails for one of these causes and no other (`walk_refused`), and so
does the mutation (`refused_of_compile`). -/
namespace GraphqlCypher

open Schema WalkM

/-! ### Causes -/

namespace Catalog

variable (c : Catalog)

/-- A step cannot be taken: its target is unknown, or cannot be created although it is to
be. -/
def Misses (step : Step) (e : Failure) : Prop :=
  c.model step.related = .error e ∨
    step.action = .create ∧ c.mutation (Names.createMutation step.related) = .error e

/-- The failures for which what a step supplies gives cause, with those of objects given. -/
def BranchRefused (refused : String → Json.Object → Failure → Prop) (step : Step) (v : Json)
    (e : Failure) : Prop :=
  c.Misses step e ∨ ∃ w ∈ v.elements,
    (∀ o, w ≠ .object o) ∧ e = .nestedNotObject step.action.text step.field ∨
      ∃ o, w = .object o ∧ refused step.related o e

/-- The failures for which the arguments of a model give cause, with so many levels left. -/
def Refused : Nat → String → Json.Object → Failure → Prop
  | 0, _, _, e => e = .nestedTooDeep maxNesting
  | levels + 1, model, arguments, e =>
    c.model model = .error e ∨ ∃ info, c.model model = .ok info ∧
      ((∃ field related nested, (field, .object nested) ∈ arguments ∧
          info.related? field = some related ∧ (∀ a : NestedAction, (a.given? nested).isSome) ∧
          info.isToMany field = false ∧ e = .bothOnToOne field model) ∨
        ∃ step v, (step, v) ∈ info.branches arguments ∧
          c.BranchRefused (Refused levels) step v e)

variable {c}

/-- An id is no cause of its own. -/
theorem refused_of_identified {levels : Nat} {model : String} {arguments out : Json.Object}
    {e : Failure} (identified : Identified arguments out) (h : c.Refused levels model out e) :
    c.Refused levels model arguments e := by
  cases levels with
  | zero => exact h
  | succ levels =>
    rcases h with h | ⟨info, hinfo, ⟨field, related, nested, hmem, h⟩ | ⟨step, v, hbranch, h⟩⟩
    · exact .inl h
    · refine .inr ⟨info, hinfo, .inl ⟨field, related, nested, ?_, h⟩⟩
      rcases identified with rfl | ⟨-, id, rfl⟩
      · exact hmem
      · rcases List.mem_append.1 hmem with hmem | hmem
        · exact hmem
        · cases List.mem_singleton.1 hmem
    · exact .inr ⟨info, hinfo, .inr ⟨step, v, identified.branches info ▸ hbranch, h⟩⟩

end Catalog

/-! ### The parts of a walk -/

namespace Tour

variable {T : Tour} {s u : WalkState} {e : Failure}

theorem not_fails_identify (hids : ∀ g ∈ T.ids, g.Endless) (arguments : Json.Object) :
    ¬ Fails (T.identify arguments) s e u := by
  intro h
  simp only [identify, fails_bind, fails_lift] at h
  rcases h with h | ⟨s', t, -, ⟨h, -⟩ | ⟨r, _, -, h | ⟨_, _, -, h⟩⟩⟩
  · exact not_fails_get _ _ _ h
  · obtain ⟨r, hr⟩ := exists_withId_ok hids s'.drawn arguments
    cases hr.symm.trans h
  · exact not_fails_set _ _ _ _ h
  · exact not_fails_pure _ _ _ _ h

/-- The edges of a known owner can always be put, so a group fails at its target. -/
theorem misses_of_group {above : List Step} {owner : String} {supplied : List String} {step : Step}
    {ownerInfo : ModelInfo} (howner : T.catalog.model owner = .ok ownerInfo)
    (hrelation : ∃ m, T.catalog.mutation (Names.relationMutation owner step.field) = .ok m)
    (h : T.group above owner supplied step = .error e) : T.catalog.Misses step e := by
  obtain ⟨relation, hrelation⟩ := hrelation
  unfold group at h
  rw [howner, hrelation] at h
  cases htarget : T.catalog.model step.related with
  | error e' =>
    rw [htarget] at h
    cases h
    exact .inl htarget
  | ok target =>
    rw [htarget] at h
    cases haction : step.action with
    | connect =>
      simp only [haction] at h
      cases h
    | create =>
      cases hcreate : T.catalog.mutation (Names.createMutation step.related) with
      | error e' =>
        simp only [haction, hcreate] at h
        cases h
        exact .inr ⟨haction, hcreate⟩
      | ok creation =>
        simp only [haction, hcreate] at h
        cases h

theorem misses_of_noteGroup {above : List Step} {owner : String} {supplied : List String}
    {step : Step} {ownerInfo : ModelInfo} (howner : T.catalog.model owner = .ok ownerInfo)
    (hrelation : ∃ m, T.catalog.mutation (Names.relationMutation owner step.field) = .ok m)
    (h : Fails (T.noteGroup above owner supplied step) s e u) : T.catalog.Misses step e := by
  simp only [noteGroup, fails_bind] at h
  rcases h with h | ⟨s', t, -, h⟩
  · exact absurd h (not_fails_get _ _ _)
  · split at h
    · exact absurd h (not_fails_pure _ _ _ _)
    · rw [fails_bind, fails_lift] at h
      rcases h with ⟨h, -⟩ | ⟨g, _, -, h⟩
      · exact misses_of_group howner hrelation h
      · exact absurd h (not_fails_modify _ _ _ _)

variable {onward : Onward} {refused : String → Json.Object → Failure → Prop} {owner : String}
  {ownerInfo : ModelInfo} {above : List Pick} {supplied : List String} {step : Step}

section

variable (hids : ∀ g ∈ T.ids, g.Endless)
  (honward : ∀ address model arguments s e u, Fails (onward address model arguments) s e u →
    refused model arguments e)
  (hidentified : ∀ model arguments out e, Identified arguments out → refused model out e →
    refused model arguments e)

include hids honward hidentified

theorem element_fails {x : Json × Nat} (h : Fails (T.element onward above step x) s e u) :
    (∀ o, x.1 ≠ .object o) ∧ e = .nestedNotObject step.action.text step.field ∨
      ∃ o, x.1 = .object o ∧ refused step.related o e := by
  obtain ⟨v, i⟩ := x
  cases v with
  | object o =>
    right
    refine ⟨o, rfl, ?_⟩
    simp only [element] at h
    cases haction : step.action with
    | create =>
      simp only [haction, fails_bind] at h
      rcases h with h | ⟨new, t, hnew, h | ⟨_, _, -, h⟩⟩
      · exact absurd h (not_fails_identify hids o)
      · exact hidentified _ _ _ _ (identify_ends hnew).1 (honward _ _ _ _ _ _ h)
      · exact absurd h (not_fails_pure _ _ _ _)
    | connect =>
      simp only [haction, fails_bind] at h
      rcases h with h | ⟨same, t, hsame, h | ⟨_, _, -, h⟩⟩
      · exact absurd h (not_fails_pure _ _ _ _)
      · obtain ⟨rfl, -⟩ := (ends_pure _ _ _ _).1 hsame
        exact honward _ _ _ _ _ _ h
      · exact absurd h (not_fails_pure _ _ _ _)
  | null | bool _ | number _ | string _ | array _ =>
    exact .inl ⟨by simp, ((fails_throw _ _ _ _).1 h).1⟩

variable (howner : T.catalog.model owner = .ok ownerInfo)
include howner

theorem elements_fails
    (hrelation : ∃ m, T.catalog.mutation (Names.relationMutation owner step.field) = .ok m)
    {v : Json} (h : Fails (T.elements onward above owner supplied step v) s e u) :
    T.catalog.BranchRefused refused step v e := by
  simp only [elements, fails_bind] at h
  rcases h with h | ⟨⟨⟩, t, -, h⟩
  · exact .inl (misses_of_noteGroup howner hrelation h)
  · have single : Fails (T.element onward above step (v, 0)) t e u → v.elements = [v] →
        T.catalog.BranchRefused refused step v e := by
      intro h hv
      refine .inr ⟨v, hv ▸ List.mem_singleton_self v, ?_⟩
      exact element_fails hids honward hidentified h
    cases v with
    | array items =>
      simp only [fails_bind] at h
      rcases h with h | ⟨_, _, -, h⟩
      · obtain ⟨x, hx, t', h⟩ := exists_fails_of_mapM h
        exact .inr ⟨x.1, List.fst_mem_of_mem_zipIdx hx, element_fails hids honward hidentified h⟩
      · exact absurd h (not_fails_pure _ _ _ _)
    | null | bool _ | number _ | string _ | object _ => exact single h rfl

theorem action_fails {nested : Json.Object}
    (h : Fails (T.action onward above owner supplied step nested) s e u)
    (hrelation : ∃ m, T.catalog.mutation (Names.relationMutation owner step.field) = .ok m) :
    ∃ v, step.action.given? nested = some v ∧ T.catalog.BranchRefused refused step v e := by
  unfold action at h
  split at h
  · exact absurd h (not_fails_pure _ _ _ _)
  · next v hv =>
    simp only [fails_bind] at h
    rcases h with h | ⟨_, _, -, h⟩
    · exact ⟨v, hv, elements_fails hids honward hidentified howner hrelation h⟩
    · exact absurd h (not_fails_pure _ _ _ _)

/-- A relation fails at itself, or at what it gives to one of the actions. -/
theorem relation_fails {field related : String} {nested : Json.Object}
    (hrelation : ∃ m, T.catalog.mutation (Names.relationMutation owner field) = .ok m)
    (h : Fails (T.relation onward above owner ownerInfo supplied field related nested) s e u) :
    (∀ a : NestedAction, (a.given? nested).isSome) ∧ ownerInfo.isToMany field = false ∧
        e = .bothOnToOne field owner ∨
      ∃ a v, NestedAction.given? a nested = some v ∧
        T.catalog.BranchRefused refused ⟨field, a, related⟩ v e := by
  unfold relation at h
  simp only at h
  split at h
  · next hboth =>
    simp only [Bool.and_eq_true, Bool.not_eq_true'] at hboth
    obtain ⟨⟨hcreate, hconnect⟩, hone⟩ := hboth
    rw [fails_bind, fails_throw] at h
    refine .inl ⟨fun a => ?_, hone, And.left (h.resolve_right fun h => ?_)⟩
    · cases a with
      | create => exact hcreate
      | connect => exact hconnect
    · obtain ⟨_, t, hthrow, -⟩ := h
      exact not_ends_throw _ _ _ _ hthrow
  · right
    rcases (fails_bind _ _ _ _ _).1 h with h | ⟨created, t, hcreated, h⟩
    · obtain ⟨v, hv, h⟩ := action_fails hids honward hidentified howner h hrelation
      exact ⟨.create, v, hv, h⟩
    · obtain ⟨v, hv, h⟩ := action_fails hids honward hidentified howner h hrelation
      have same : NestedAction.connect.given? created = NestedAction.connect.given? nested :=
        given?_of_action (by simp) hcreated
      exact ⟨.connect, v, same ▸ hv, h⟩

end

/-- A visit fails if the model is unknown, or at one of the relations. -/
theorem visit_fails (hrelations : T.catalog.HasRelations) (hids : ∀ g ∈ T.ids, g.Endless)
    {levels : Nat}
    (honward : ∀ address model arguments s e u, Fails (onward address model arguments) s e u →
      T.catalog.Refused levels model arguments e) {address : List Pick} {model : String}
    {arguments : Json.Object} (h : Fails (T.visit onward address model arguments) s e u) :
    T.catalog.Refused (levels + 1) model arguments e := by
  simp only [visit, fails_bind, fails_lift, ends_lift] at h
  rcases h with ⟨h, -⟩ | ⟨info, t, ⟨hinfo, rfl⟩, h | ⟨_, _, -, h⟩⟩
  · exact .inl h
  · exact absurd h (not_fails_modify _ _ _ _)
  · refine .inr ⟨info, hinfo, ?_⟩
    obtain ⟨⟨field, v⟩, hentry, u', h⟩ := exists_fails_of_mapM h
    unfold argument at h
    split at h
    · next related nested hrelated hobject =>
      cases hobject
      simp only [fails_bind] at h
      rcases h with h | ⟨_, _, -, h⟩
      · have identified : ∀ model arguments out e, Identified arguments out →
            T.catalog.Refused levels model out e → T.catalog.Refused levels model arguments e :=
          fun _ _ _ _ => Catalog.refused_of_identified
        rcases relation_fails hids honward identified hinfo
          (hrelations _ _ _ _ hinfo hrelated) h with ⟨given, one, rfl⟩ | ⟨a, v, given, h⟩
        · exact .inl ⟨field, related, nested, hentry, hrelated, given, one, rfl⟩
        · exact .inr ⟨_, v, ModelInfo.mem_branches_iff.2 ⟨hrelated, nested, hentry, given⟩, h⟩
      · exact absurd h (not_fails_pure _ _ _ _)
    · exact absurd h (not_fails_pure _ _ _ _)

/-- **Why a walk fails.** The arguments give cause for it. -/
theorem walk_refused (hrelations : T.catalog.HasRelations) (hids : ∀ g ∈ T.ids, g.Endless)
    (levels : Nat) :
    ∀ address model arguments s e u, Fails (T.walk levels address model arguments) s e u →
      T.catalog.Refused levels model arguments e := by
  induction levels with
  | zero => exact fun _ _ _ _ _ _ h => ((fails_throw _ _ _ _).1 h).1
  | succ levels ih => exact fun _ _ _ _ _ _ h => visit_fails hrelations hids ih h

end Tour

namespace Catalog

variable {c : Catalog}

/-- **Why a create mutation is refused.** Where ids never run out, the arguments give cause
for whatever it fails with. -/
theorem refused_of_compile (hrelations : c.HasRelations) {ids : Option IdGenerator}
    (hids : ∀ g ∈ ids, g.Endless) {name : String} {info : MutationInfo} {data : Json.Object}
    {drawn : Nat} {e : Failure} {u : WalkState}
    (h : Fails (c.compileRoot name info data ids) { drawn } e u) :
    c.Refused (maxNesting + 1) info.model data e := by
  let T : Tour := ⟨c, info.model, ids⟩
  simp only [compileRoot, fails_bind, fails_lift, ends_lift] at h
  rcases h with h | ⟨new, s, hnew, ⟨h, -⟩ | ⟨root, _, ⟨-, rfl⟩, h | ⟨out, t, hwalk, h⟩⟩⟩
  · exact absurd h (Tour.not_fails_identify (T := T) hids data)
  · exact .inl h
  · exact refused_of_identified (Tour.identify_ends hnew).1
      (Tour.walk_refused (T := T) hrelations hids _ _ _ _ _ _ _ h)
  · -- What was walked over can be read back.
    have start : T.Found { drawn } :=
      ⟨fun _ hg => absurd hg List.not_mem_nil, fun _ hv => absurd hv List.not_mem_nil⟩
    obtain ⟨-, found, -⟩ := (Tour.identify_exact (T := T) hids data).sound _ _ _ start hnew
    obtain ⟨-, found, -⟩ := (Tour.walk_exact (T := T) hrelations hids (maxNesting + 1) 0 rfl []
      info.model new).sound _ _ _ found hwalk
    rcases h with h | ⟨_, _, hget, ⟨h, -⟩ | ⟨_, _, -, h⟩⟩
    · exact absurd h (not_fails_get _ _ _)
    · obtain ⟨rfl, rfl⟩ := (ends_get _ _ _).1 hget
      obtain ⟨r, hr⟩ := exists_readBack found.2
      cases hr.symm.trans h
    · exact absurd h (not_fails_pure _ _ _ _)

end Catalog

end GraphqlCypher
