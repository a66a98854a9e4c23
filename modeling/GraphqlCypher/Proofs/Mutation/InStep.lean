import GraphqlCypher.Proofs.Json.Alike
import GraphqlCypher.Proofs.Mutation.Branches

/-! Two walks in step.

`InStep R m m'` says of two walks that start with the same notes that they end with the same
notes and values in a relation, or that both fail for the same reason. There is one rule for
each way to put walks together. What a walk decides by is the catalog, the keys of objects and
what stands where, never a leaf, so two walks over alike objects are in step
(`Tour.walk_inStep`), wherever their ids come from. -/
namespace GraphqlCypher

open Json

/-! ### Walks side by side -/

/-- The same groups were noted, and visits of the same models. -/
structure SameNotes (s s' : WalkState) : Prop where
  groups : s.groups = s'.groups
  models : s.visits.map Visit.model = s'.visits.map Visit.model

namespace WalkM

variable {α β γ δ : Type}

/-- Two ends of walks that belong together. After a failure no state counts. -/
inductive EndsMatch (R : α → β → Prop) :
    Except Failure α × WalkState → Except Failure β × WalkState → Prop where
  | ok {a : α} {b : β} {t t' : WalkState} (related : R a b) (notes : SameNotes t t') :
      EndsMatch R (.ok a, t) (.ok b, t')
  | error (e : Failure) (t t' : WalkState) : EndsMatch R (.error e, t) (.error e, t')

/-- Two walks that end alike wherever they start with the same notes. -/
def InStep (R : α → β → Prop) (m : WalkM α) (m' : WalkM β) : Prop :=
  ∀ s s', SameNotes s s' → EndsMatch R (m.run.run s) (m'.run.run s')

variable {R : α → β → Prop} {Q : γ → δ → Prop} {m : WalkM α} {m' : WalkM β}

theorem inStep_pure {a : α} {b : β} (h : R a b) : InStep R (pure a) (pure b) :=
  fun _ _ notes => .ok h notes

theorem inStep_throw (e : Failure) : InStep R (throw e) (throw e) :=
  fun s s' _ => .error e s s'

theorem inStep_get : InStep SameNotes get get := fun _ _ notes => .ok notes notes

theorem inStep_set {t t' : WalkState} (h : SameNotes t t') :
    InStep (fun _ _ => True) (set t) (set t') := fun _ _ _ => .ok trivial h

theorem inStep_modify {f f' : WalkState → WalkState}
    (h : ∀ s s', SameNotes s s' → SameNotes (f s) (f' s')) :
    InStep (fun _ _ => True) (modify f) (modify f') :=
  fun s s' notes => .ok trivial (h s s' notes)

/-- What needs no state is in step with itself. -/
theorem inStep_lift (e : Except Failure α) :
    InStep Eq (ExceptT.mk (pure e)) (ExceptT.mk (pure e)) := by
  intro s s' notes
  cases e with
  | error e => exact .error e s s'
  | ok a => exact .ok rfl notes

theorem InStep.bind {f : α → WalkM γ} {f' : β → WalkM δ} (h : InStep R m m')
    (hf : ∀ a b, R a b → InStep Q (f a) (f' b)) : InStep Q (m >>= f) (m' >>= f') := by
  intro s s' notes
  have first := h s s' notes
  rw [run_bind, run_bind]
  generalize m.run.run s = r at first
  generalize m'.run.run s' = r' at first
  cases first with
  | ok related notes => exact hf _ _ related _ _ notes
  | error e t t' => exact .error e t t'

/-- What walks in step give may be changed afterwards. -/
theorem InStep.map {f : α → γ} {f' : β → δ} (h : InStep R m m')
    (imp : ∀ a b, R a b → Q (f a) (f' b)) :
    InStep Q (m >>= fun a => pure (f a)) (m' >>= fun b => pure (f' b)) :=
  h.bind fun a b hab => inStep_pure (imp a b hab)

/-- Lists whose elements are in step, one by one. -/
theorem inStep_mapM {l : List γ} {l' : List δ} {f : γ → WalkM α} {f' : δ → WalkM β}
    (h : List.Forall₂ Q l l') (each : ∀ x y, Q x y → InStep R (f x) (f' y)) :
    InStep (List.Forall₂ R) (l.mapM f) (l'.mapM f') := by
  induction h with
  | nil =>
    rw [List.mapM_nil, List.mapM_nil]
    exact inStep_pure .nil
  | cons head _ ih =>
    rw [List.mapM_cons, List.mapM_cons]
    exact (each _ _ head).bind fun _ _ first => ih.map fun _ _ rest => .cons first rest

end WalkM

theorem forall₂_zipIdx {α β : Type} {R : α → β → Prop} {l : List α} {l' : List β}
    (h : List.Forall₂ R l l') (n : Nat) :
    List.Forall₂ (fun x y => R x.1 y.1 ∧ x.2 = y.2) (l.zipIdx n) (l'.zipIdx n) := by
  induction h generalizing n with
  | nil => exact .nil
  | cons head _ ih => exact .cons ⟨head, rfl⟩ (ih (n + 1))

/-! ### Ids -/

/-- The same choice for two runs: no ids, or ids that never run out. -/
inductive SameChoice : Option IdGenerator → Option IdGenerator → Prop where
  | none : SameChoice none none
  | endless {g g' : IdGenerator} (first : g.Endless) (second : g'.Endless) :
      SameChoice (some g) (some g')

/-- The arguments of a new node have an id or none in both runs, and then get one in both. -/
theorem withId_alike {ids ids' : Option IdGenerator} (hids : SameChoice ids ids') (n n' : Nat)
    {o o' : Json.Object} (h : AlikeObjects o o') :
    ∃ new new' k k', withId ids n o = .ok (new, k) ∧ withId ids' n' o' = .ok (new', k') ∧
      AlikeObjects new new' := by
  cases hids with
  | none => exact ⟨o, o', n, n', rfl, rfl, h⟩
  | @endless g g' first second =>
    have hcontains : Entries.contains o Schema.Names.id = Entries.contains o' Schema.Names.id := by
      rw [Entries.contains, Entries.contains, h.keys]
    simp only [withId, hcontains]
    by_cases hid : Entries.contains o' Schema.Names.id = true
    · exact ⟨o, o', n, n', if_pos hid, if_pos hid, h⟩
    · obtain ⟨id, hid₁⟩ := first n
      obtain ⟨id', hid₂⟩ := second n'
      rw [if_neg hid, if_neg hid, hid₁, hid₂]
      exact ⟨_, _, _, _, rfl, rfl, h.insert _ (.leaf rfl rfl)⟩

/-! ### Walks over alike arguments -/

/-- Two tours of one catalog from one root, with the same choice of ids. -/
structure Tour.Twins (T T' : Tour) : Prop where
  catalog : T.catalog = T'.catalog
  root : T.root = T'.root
  ids : SameChoice T.ids T'.ids

namespace Tour

open WalkM

variable {T T' : Tour} (twins : T.Twins T')
include twins

theorem identify_inStep {o o' : Json.Object} (h : AlikeObjects o o') :
    InStep AlikeObjects (T.identify o) (T'.identify o') := by
  refine inStep_get.bind fun s s' notes => ?_
  obtain ⟨new, new', k, k', hnew, hnew', halike⟩ := withId_alike twins.ids s.drawn s'.drawn h
  rw [hnew, hnew']
  have drawn : SameNotes { s with drawn := k } { s' with drawn := k' } :=
    ⟨notes.groups, notes.models⟩
  exact (inStep_set drawn).bind fun _ _ _ => inStep_pure halike

theorem group_eq (above : List Step) (owner : String) (supplied : List String) (step : Step) :
    T.group above owner supplied step = T'.group above owner supplied step := by
  unfold group
  rw [twins.catalog, twins.root]

theorem noteGroup_inStep (above : List Step) (owner : String) (supplied : List String)
    (step : Step) : InStep (fun _ _ => True) (T.noteGroup above owner supplied step)
      (T'.noteGroup above owner supplied step) := by
  refine inStep_get.bind fun s s' notes => ?_
  rw [notes.groups, group_eq twins]
  split
  · exact inStep_pure trivial
  · refine (inStep_lift _).bind fun g g' hg => inStep_modify fun s s' notes => ?_
    exact ⟨by rw [notes.groups, hg], notes.models⟩

omit twins in
/-- What is no object cannot be an element. -/
theorem element_of_leaf (onward : Onward) (above : List Pick) (step : Step) {v : Json} (i : Nat)
    (h : v.isLeaf = true) : T.element onward above step (v, i) =
      throw (.nestedNotObject step.action.text step.field) := by
  cases v with
  | null | array _ | object _ => cases h
  | bool _ | number _ | string _ => rfl

omit twins in
theorem elements_of_leaf (onward : Onward) (above : List Pick) (owner : String)
    (supplied : List String) (step : Step) {v : Json} (h : v.isLeaf = true) :
    T.elements onward above owner supplied step v =
      (do
        T.noteGroup (above.map Pick.step) owner supplied step
        T.element onward above step (v, 0)) := by
  cases v with
  | null | array _ | object _ => cases h
  | bool _ | number _ | string _ => rfl

omit twins in
/-- A leaf is no relation. -/
theorem argument_of_leaf (onward : Onward) (above : List Pick) (owner : String) (info : ModelInfo)
    (supplied : List String) (field : String) {v : Json} (h : v.isLeaf = true) :
    T.argument onward above owner info supplied (field, v) = pure (field, v) := by
  unfold argument
  cases v with
  | null | array _ | object _ => cases h
  | bool _ | number _ | string _ => cases info.related? field <;> rfl

variable {onward onward' : Onward}
  (honward : ∀ address model o o', AlikeObjects o o' →
    InStep AlikeObjects (onward address model o) (onward' address model o'))
include honward

theorem element_inStep (above : List Pick) (step : Step) (i : Nat) {v v' : Json}
    (h : Alike v v') : InStep Alike (T.element onward above step (v, i))
      (T'.element onward' above step (v', i)) := by
  cases h with
  | null | array _ => exact inStep_throw _
  | leaf first second =>
    rw [element_of_leaf onward above step i first, element_of_leaf onward' above step i second]
    exact inStep_throw _
  | @object o o' keys each =>
    have halike : AlikeObjects o o' := alikeObjects_iff.2 ⟨keys, each⟩
    have goOn : ∀ new new', AlikeObjects new new' → InStep Alike
        (do return .object (← onward (above ++ [⟨step, i⟩]) step.related new))
        (do return .object (← onward' (above ++ [⟨step, i⟩]) step.related new')) :=
      fun new new' hnew => (honward _ _ _ _ hnew).map fun _ _ hout => alike_object_iff.2 hout
    simp only [element]
    cases step.action with
    | create => exact (identify_inStep twins halike).bind goOn
    | connect => exact (inStep_pure halike).bind goOn

theorem elements_inStep (above : List Pick) (owner : String) (supplied : List String) (step : Step)
    {v v' : Json} (h : Alike v v') :
    InStep Alike (T.elements onward above owner supplied step v)
      (T'.elements onward' above owner supplied step v') := by
  have noted := noteGroup_inStep twins (above.map Pick.step) owner supplied step
  have single := noted.bind fun _ _ _ => element_inStep twins honward above step 0 h
  cases h with
  | null | object _ _ => exact single
  | leaf first second =>
    rw [elements_of_leaf onward above owner supplied step first,
      elements_of_leaf onward' above owner supplied step second]
    exact single
  | array each =>
    refine noted.bind fun _ _ _ =>
      (inStep_mapM (forall₂_zipIdx each 0) ?_).map fun _ _ h => .array h
    intro x y hxy
    obtain ⟨v, i⟩ := x
    obtain ⟨w, _⟩ := y
    obtain ⟨hv, rfl⟩ := hxy
    exact element_inStep twins honward above step i hv

theorem action_inStep (above : List Pick) (owner : String) (supplied : List String) (step : Step)
    {nested nested' : Json.Object} (h : AlikeObjects nested nested') :
    InStep AlikeObjects (T.action onward above owner supplied step nested)
      (T'.action onward' above owner supplied step nested') := by
  have hgiven := rel_given? (h.rel_get? step.action.text)
  unfold action
  generalize Json.given? (Entries.get? nested step.action.text) = v at hgiven
  generalize Json.given? (Entries.get? nested' step.action.text) = v' at hgiven
  cases hgiven with
  | none => exact inStep_pure h
  | some hv =>
    exact (elements_inStep twins honward above owner supplied step hv).map fun _ _ hw =>
      h.insert _ hw

omit twins honward in
theorem isSome_given? {nested nested' : Json.Object} (h : AlikeObjects nested nested')
    (a : NestedAction) : (Json.given? (Entries.get? nested a.text)).isSome =
      (Json.given? (Entries.get? nested' a.text)).isSome := by
  have hgiven := rel_given? (h.rel_get? a.text)
  generalize Json.given? (Entries.get? nested a.text) = v at hgiven ⊢
  generalize Json.given? (Entries.get? nested' a.text) = v' at hgiven ⊢
  cases hgiven <;> rfl

theorem relation_inStep (above : List Pick) (owner : String) (info : ModelInfo)
    (supplied : List String) (field related : String) {nested nested' : Json.Object}
    (h : AlikeObjects nested nested') :
    InStep AlikeObjects (T.relation onward above owner info supplied field related nested)
      (T'.relation onward' above owner info supplied field related nested') := by
  simp only [relation, isSome_given? h]
  split
  · exact inStep_throw _
  · exact (action_inStep twins honward above owner supplied ⟨field, .create, related⟩ h).bind
      fun _ _ hcreated =>
        action_inStep twins honward above owner supplied ⟨field, .connect, related⟩ hcreated

theorem argument_inStep (above : List Pick) (owner : String) (info : ModelInfo)
    (supplied : List String) {e e' : String × Json} (h : AlikeEntries e e') :
    InStep AlikeEntries (T.argument onward above owner info supplied e)
      (T'.argument onward' above owner info supplied e') := by
  obtain ⟨field, v⟩ := e
  obtain ⟨_, v'⟩ := e'
  obtain ⟨rfl, hv⟩ := h
  have same : InStep AlikeEntries (pure (field, v)) (pure (field, v')) := inStep_pure ⟨rfl, hv⟩
  cases hv with
  | leaf first second =>
    rw [argument_of_leaf onward above owner info supplied field first,
      argument_of_leaf onward' above owner info supplied _ second]
    exact same
  | null | array _ =>
    unfold argument
    cases info.related? field <;> exact same
  | object keys each =>
    unfold argument
    cases info.related? field with
    | none => exact same
    | some related =>
      exact (relation_inStep twins honward above owner info supplied field related
        (alikeObjects_iff.2 ⟨keys, each⟩)).map fun _ _ h => ⟨rfl, alike_object_iff.2 h⟩

theorem visit_inStep (address : List Pick) (model : String) {o o' : Json.Object}
    (h : AlikeObjects o o') : InStep AlikeObjects (T.visit onward address model o)
      (T'.visit onward' address model o') := by
  unfold visit
  rw [twins.catalog, h.keys]
  refine (inStep_lift _).bind fun info info' hinfo => ?_
  obtain rfl := hinfo
  have noted : InStep (fun _ _ => True) (note address model o) (note address model o') :=
    inStep_modify fun s s' notes => ⟨notes.groups, by simp [notes.models]⟩
  exact noted.bind fun _ _ _ => inStep_mapM h fun e e' he =>
    argument_inStep twins honward address model info _ he

omit honward in
/-- **Walks over alike objects are in step.** -/
theorem walk_inStep (levels : Nat) : ∀ address model o o', AlikeObjects o o' →
    InStep AlikeObjects (T.walk levels address model o) (T'.walk levels address model o') := by
  induction levels with
  | zero => exact fun _ _ _ _ _ => inStep_throw _
  | succ levels ih => exact fun address model o o' h => visit_inStep twins ih address model h

end Tour

end GraphqlCypher
